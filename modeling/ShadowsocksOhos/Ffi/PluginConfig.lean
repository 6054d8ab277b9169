/-
Plugins in the config (`lib.rs`: `extract_plugin_specs`, `extract_one_spec`, `apply_plugin_forwarders`). A server entry
is the top level of the config or an element of its "servers" array. Every entry with a "plugin" key gets a loopback
forwarder, and is rewritten to point at it.

- `ConfigRewritten`: what the rewritten config is to the original one, entry by entry, with the forwarders in order.
- `extract_apply`: extraction and rewriting together give such a config, and never panic.
- `extract_error`: an invalid entry makes the extraction fail with `SSLOCAL_ERR_BAD_CONFIG`, whatever the others are.
-/
import ShadowsocksOhos.Ffi.PluginOpts
import ShadowsocksOhos.Plugin.Stream

namespace ShadowsocksOhos

/-! ## JSON values -/

/-- a number as serde_json keeps it; a float by its bits -/
inductive Number where
  | posInt (n : UInt64)
  | negInt (n : Int)
  | float (bits : UInt64)
deriving DecidableEq, Repr

inductive Json where
  | null
  | bool (b : Bool)
  | num (n : Number)
  | str (s : Text)
  | arr (items : List Json)
  | obj (fields : List (Text × Json))

namespace Json

def get (key : Text) : Json → Option Json
  | .obj fields => Dict.get key fields
  | _ => none

def asStr : Json → Option Text
  | .str s => some s
  | _ => none

def asU64 : Json → Option UInt64
  | .num (.posInt n) => some n
  | _ => none

def asArray : Json → Option (List Json)
  | .arr items => some items
  | _ => none

/-- `value[key] = v`, which panics on anything but an object and null -/
def indexSet (value : Json) (key : Text) (v : Json) : Option Json :=
  match value with
  | .obj fields => some (.obj (Dict.insert key v fields))
  | .null => some (.obj [(key, v)])
  | _ => none

end Json

/-! ## Errors -/

/-- the code an entry point returns, with the text it leaves in `LAST_ERROR` -/
structure Failure where
  code : Int
  message : Text
deriving DecidableEq, Repr

def sslocalOk : Int := 0
def sslocalErrInvalidArg : Int := -1
def sslocalErrBadConfig : Int := -2
def sslocalErrAlreadyRunning : Int := -3
def sslocalErrNotRunning : Int := -4
def sslocalErrRuntime : Int := -5

def badConfig (message : Text) : Failure := ⟨sslocalErrBadConfig, message⟩

/-! ## Collecting the plugins -/

inductive PluginSite where
  | topLevel
  | server (i : ℕ)
deriving DecidableEq, Repr

structure PluginSpec where
  site : PluginSite
  kind : PluginKind
  host : Text
  port : UInt16
deriving DecidableEq, Repr

def kPlugin : Text := "plugin".toList
def kPluginOpts : Text := "plugin_opts".toList
def kServer : Text := "server".toList
def kServerPort : Text := "server_port".toList
def kServers : Text := "servers".toList

/-- the options of an entry; anything but a string counts as none -/
def optsOf (entry : Json) : Text := ((entry.get kPluginOpts).bind Json.asStr).getD []

/-- the server port of an entry, when it is a number that fits -/
def portOf (entry : Json) : Option UInt16 :=
  ((entry.get kServerPort).bind Json.asU64).bind fun p =>
    if p.toNat < 65536 then some (UInt16.ofNat p.toNat) else none

def extractOneSpec (entry : Json) (site : PluginSite) : Except Failure PluginSpec :=
  match (entry.get kPlugin).bind Json.asStr with
  | none => .error (badConfig "\"plugin\" must be a string".toList)
  | some name =>
    match parsePlugin name (optsOf entry) with
    | .error e => .error (badConfig e.toText)
    | .ok kind =>
      match (entry.get kServer).bind Json.asStr with
      | none =>
        .error (badConfig ("plugin \"".toList ++ name ++ "\" requires a \"server\" address".toList))
      | some host =>
        match portOf entry with
        | none =>
          .error (badConfig ("plugin \"".toList ++ name ++ "\" requires a valid \"server_port\"".toList))
        | some port => .ok ⟨site, kind, host, port⟩

/-- does the entry declare a plugin? -/
def hasPlugin (entry : Json) : Bool := (entry.get kPlugin).isSome

/-- the specs of the entries of "servers", from index `i` on -/
def extractServers (i : ℕ) : List Json → Except Failure (List PluginSpec)
  | [] => .ok []
  | entry :: entries =>
    if hasPlugin entry then do
      let spec ← extractOneSpec entry (.server i)
      let specs ← extractServers (i + 1) entries
      .ok (spec :: specs)
    else extractServers (i + 1) entries

/-- the elements of the "servers" array, when there is one -/
def serversOf (json : Json) : Option (List Json) := (json.get kServers).bind Json.asArray

/-- the spec of the top level, when it has a plugin -/
def extractTop (json : Json) : Except Failure (List PluginSpec) :=
  if hasPlugin json then (extractOneSpec json .topLevel).map fun spec => [spec] else .ok []

def extractPluginSpecs (json : Json) : Except Failure (List PluginSpec) := do
  let top ← extractTop json
  let servers ← extractServers 0 ((serversOf json).getD [])
  .ok (top ++ servers)

/-! ## Rewriting -/

/-- a listener on 127.0.0.1 that relays to a server through a plugin -/
structure Forwarder where
  kind : PluginKind
  host : Text
  port : UInt16
  localPort : UInt16
deriving DecidableEq, Repr

def portJson (port : UInt16) : Json := .num (.posInt port.toUInt64)

def loopback : Json := .str "127.0.0.1".toList

def rewriteEntry (localPort : UInt16) (entry : Json) : Option Json := do
  let entry ← entry.indexSet kServer loopback
  let entry ← entry.indexSet kServerPort (portJson localPort)
  match entry with
  | .obj fields => some (.obj (Dict.remove kPluginOpts (Dict.remove kPlugin fields)))
  | entry => some entry

/-- rewrite the entry at a site; an index that is not there panics -/
def rewriteSite (json : Json) (localPort : UInt16) : PluginSite → Option Json
  | .topLevel => rewriteEntry localPort json
  | .server i =>
    match json with
    | .obj fields =>
      match Dict.get kServers fields with
      | some (.arr items) => do
        let entry ← items[i]?
        let entry ← rewriteEntry localPort entry
        some (.obj (Dict.insert kServers (.arr (items.set i entry)) fields))
      | _ => none
    | _ => none

def forwarderFailed (spec : PluginSpec) (e : Text) : Failure :=
  ⟨sslocalErrRuntime, "failed to start plugin forwarder for ".toList ++ spec.host ++ ":".toList ++
    decimal spec.port.toNat ++ ": ".toList ++ e⟩

/-- `plan n` is the outcome of the forwarder start number `n`: a port or an error. The forwarders started come with the
rewritten config, with a failure, or with `none` for a panic. -/
def applyPluginForwarders (plan : ℕ → Except Text UInt16) :
    List Forwarder → Json → List PluginSpec → List Forwarder × Option (Except Failure Json)
  | started, json, [] => (started, some (.ok json))
  | started, json, spec :: specs =>
    match plan started.length with
    | .error e => (started, some (.error (forwarderFailed spec e)))
    | .ok localPort =>
      let started := started ++ [⟨spec.kind, spec.host, spec.port, localPort⟩]
      match rewriteSite json localPort spec.site with
      | none => (started, none)
      | some json => applyPluginForwarders plan started json specs

/-- every forwarder has the port that its start answered -/
theorem applyPluginForwarders_ports (plan : ℕ → Except Text UInt16) (specs : List PluginSpec) :
    ∀ (started : List Forwarder) (json : Json), (∀ (n : ℕ) f, started[n]? = some f → plan n = .ok f.localPort) →
      ∀ (n : ℕ) f, (applyPluginForwarders plan started json specs).1[n]? = some f → plan n = .ok f.localPort := by
  induction specs with
  | nil => exact fun _ _ h => h
  | cons spec specs ih =>
    intro started json h
    unfold applyPluginForwarders
    cases hplan : plan started.length with
    | error e => exact h
    | ok localPort =>
      have hnext : ∀ (n : ℕ) f, (started ++ [⟨spec.kind, spec.host, spec.port, localPort⟩])[n]? = some f →
          plan n = .ok f.localPort := by
        intro n f hf
        rcases lt_trichotomy n started.length with hlt | rfl | hgt
        · exact h n f (List.getElem?_append_left hlt ▸ hf)
        · rw [List.getElem?_concat_length] at hf
          cases hf
          exact hplan
        · rw [List.getElem?_eq_none (by rw [List.length_append, List.length_singleton]; omega)] at hf
          cases hf
      dsimp only
      cases rewriteSite json localPort spec.site with
      | none => exact hnext
      | some json' => exact ih _ json' hnext

/-! ## What rewriting means -/

/-- `entry'` points at the forwarder, which was started for `entry`; all keys but these four and `except` are as they
were -/
structure Rewritten (except : List Text) (entry entry' : Json) (forwarder : Forwarder) : Prop where
  kind : ∃ name, entry.get kPlugin = some (.str name) ∧ parsePlugin name (optsOf entry) = .ok forwarder.kind
  host : entry.get kServer = some (.str forwarder.host)
  port : entry.get kServerPort = some (portJson forwarder.port)
  server' : entry'.get kServer = some loopback
  port' : entry'.get kServerPort = some (portJson forwarder.localPort)
  plugin' : entry'.get kPlugin = none
  opts' : entry'.get kPluginOpts = none
  other : ∀ k, k ∉ [kServer, kServerPort, kPlugin, kPluginOpts] → k ∉ except → entry'.get k = entry.get k

/-- entry by entry: one without a plugin stays, one with a plugin is rewritten for the next forwarder -/
inductive ServersRewritten : List Json → List Json → List Forwarder → Prop where
  | nil : ServersRewritten [] [] []
  | keep {entry : Json} {entries entries' : List Json} {fs : List Forwarder} (h : entry.get kPlugin = none)
      (hs : ServersRewritten entries entries' fs) : ServersRewritten (entry :: entries) (entry :: entries') fs
  | rewrite {entry entry' : Json} {entries entries' : List Json} {f : Forwarder} {fs : List Forwarder}
      (h : Rewritten [] entry entry' f) (hs : ServersRewritten entries entries' fs) :
      ServersRewritten (entry :: entries) (entry' :: entries') (f :: fs)

/-- the top level apart from "servers" -/
inductive TopRewritten (json json' : Json) : List Forwarder → Prop where
  | keep (h : json.get kPlugin = none) (hk : ∀ k, k ≠ kServers → json'.get k = json.get k) : TopRewritten json json' []
  | rewrite {f : Forwarder} (h : Rewritten [kServers] json json' f) : TopRewritten json json' [f]

/-- the whole config: the forwarders of the top level come first, then those of "servers" in order -/
structure ConfigRewritten (json json' : Json) (fs : List Forwarder) : Prop where
  parts : ∃ top servers, fs = top ++ servers ∧ TopRewritten json json' top ∧
    match serversOf json with
    | some entries => ∃ entries', json'.get kServers = some (.arr entries') ∧ ServersRewritten entries entries' servers
    | none => servers = [] ∧ json'.get kServers = json.get kServers

theorem bind_eq_ok {ε α β : Type} {x : Except ε α} {g : α → Except ε β} {b : β} (h : (x >>= g) = .ok b) :
    ∃ a, x = .ok a ∧ g a = .ok b := by
  cases x with
  | error e => cases h
  | ok a => exact ⟨a, rfl, h⟩

/-! ## One entry -/

theorem portOf_eq_some {entry : Json} {port : UInt16} (h : portOf entry = some port) :
    entry.get kServerPort = some (portJson port) := by
  simp only [portOf, Option.bind_eq_some_iff] at h
  obtain ⟨n, ⟨v, hv, hn⟩, hp⟩ := h
  have hvn : v = .num (.posInt n) := by
    unfold Json.asU64 at hn
    split at hn
    · rw [Option.some.inj hn]
    · cases hn
  split_ifs at hp with hlt
  have hport : port.toUInt64 = n := by
    rw [← Option.some.inj hp]
    apply UInt64.toNat_inj.1
    simp only [UInt16.toNat_toUInt64, UInt16.toNat_ofNat']
    omega
  rw [hv, hvn, portJson, hport]

/-- what a valid entry says -/
theorem extractOneSpec_ok {entry : Json} {site : PluginSite} {spec : PluginSpec}
    (h : extractOneSpec entry site = .ok spec) :
    spec.site = site ∧ (∃ name, entry.get kPlugin = some (.str name) ∧ parsePlugin name (optsOf entry) = .ok spec.kind) ∧
      entry.get kServer = some (.str spec.host) ∧ entry.get kServerPort = some (portJson spec.port) := by
  have hstr : ∀ {v : Option Json} {s : Text}, v.bind Json.asStr = some s → v = some (.str s) := fun {v s} hv => by
    obtain ⟨j, rfl, hj⟩ := Option.bind_eq_some_iff.1 hv
    unfold Json.asStr at hj
    split at hj
    · rw [Option.some.inj hj]
    · cases hj
  unfold extractOneSpec at h
  split at h
  · cases h
  · rename_i name hname
    split at h
    · cases h
    · rename_i kind hkind
      split at h
      · cases h
      · rename_i host hhost
        split at h
        · cases h
        · rename_i port hport
          cases h
          exact ⟨rfl, ⟨name, hstr hname, hkind⟩, hstr hhost, portOf_eq_some hport⟩

theorem extractOneSpec_error {entry : Json} {site : PluginSite} {f : Failure}
    (h : extractOneSpec entry site = .error f) : f.code = sslocalErrBadConfig := by
  unfold extractOneSpec at h
  repeat' split at h
  all_goals first | cases h; rfl | cases h

/-- a valid entry is rewritten for the forwarder that was started with its spec -/
theorem rewriteEntry_rewritten {entry : Json} {site : PluginSite} {spec : PluginSpec}
    (h : extractOneSpec entry site = .ok spec) (localPort : UInt16) :
    ∃ entry', rewriteEntry localPort entry = some entry' ∧
      ∀ except, Rewritten except entry entry' ⟨spec.kind, spec.host, spec.port, localPort⟩ := by
  obtain ⟨-, ⟨name, hname, hkind⟩, hhost, hport⟩ := extractOneSpec_ok h
  cases entry with
  | obj fields =>
    refine ⟨.obj (Dict.remove kPluginOpts (Dict.remove kPlugin
      (Dict.insert kServerPort (portJson localPort) (Dict.insert kServer loopback fields)))),
      rfl,
      fun except => ⟨⟨name, hname, hkind⟩, hhost, hport, ?_, ?_, ?_, ?_, fun k hk _ => ?_⟩⟩
    all_goals simp only [Json.get]
    · rw [Dict.get_remove_of_ne (by decide), Dict.get_remove_of_ne (by decide), Dict.get_insert_of_ne (by decide),
        Dict.get_insert_self]
    · rw [Dict.get_remove_of_ne (by decide), Dict.get_remove_of_ne (by decide), Dict.get_insert_self]
    · rw [Dict.get_remove_of_ne (by decide), Dict.get_remove_self]
    · rw [Dict.get_remove_self]
    · simp only [List.mem_cons, List.not_mem_nil, or_false, not_or] at hk
      obtain ⟨h1, h2, h3, h4⟩ := hk
      rw [Dict.get_remove_of_ne h4, Dict.get_remove_of_ne h3, Dict.get_insert_of_ne h2, Dict.get_insert_of_ne h1]
  | null => cases hname
  | bool b => cases hname
  | num n => cases hname
  | str s => cases hname
  | arr items => cases hname

/-! ## All entries -/

/-- rewriting an element of "servers" -/
theorem rewriteSite_server {json entry entry' : Json} {before after : List Json} {localPort : UInt16}
    (hs : json.get kServers = some (.arr (before ++ entry :: after))) (he : rewriteEntry localPort entry = some entry') :
    ∃ json', rewriteSite json localPort (.server before.length) = some json' ∧
      json'.get kServers = some (.arr (before ++ [entry'] ++ after)) ∧
      ∀ k, k ≠ kServers → json'.get k = json.get k := by
  cases json with
  | obj fields =>
    have hs' : Dict.get kServers fields = some (.arr (before ++ entry :: after)) := hs
    refine ⟨.obj (Dict.insert kServers (.arr (before ++ [entry'] ++ after)) fields), ?_, ?_, fun k hk => ?_⟩
    · simp [rewriteSite, hs', he]
    · simp [Json.get]
    · simp [Json.get, Dict.get_insert_of_ne hk]
  | null => cases hs
  | bool b => cases hs
  | num n => cases hs
  | str s => cases hs
  | arr items => cases hs

variable {plan : ℕ → Except Text UInt16}

/-- the entries of "servers" from some index on; the earlier ones have been dealt with -/
theorem apply_servers (hplan : ∀ n, ∃ p, plan n = .ok p) {entries before : List Json} {specs : List PluginSpec}
    (h : extractServers before.length entries = .ok specs) {json : Json} {started : List Forwarder}
    (hs : json.get kServers = some (.arr (before ++ entries))) :
    ∃ json' entries' fs, applyPluginForwarders plan started json specs = (started ++ fs, some (.ok json')) ∧
      json'.get kServers = some (.arr (before ++ entries')) ∧ ServersRewritten entries entries' fs ∧
      ∀ k, k ≠ kServers → json'.get k = json.get k := by
  induction entries generalizing before specs json started with
  | nil =>
    cases h
    exact ⟨json, [], [], by simp [applyPluginForwarders], hs, .nil, fun _ _ => rfl⟩
  | cons entry entries ih =>
    unfold extractServers at h
    split_ifs at h with hp
    · -- the entry has a plugin: its forwarder is started and it is rewritten
      cases h1 : extractOneSpec entry (.server before.length) with
      | error f => rw [h1] at h; cases h
      | ok spec =>
        cases h2 : extractServers (before.length + 1) entries with
        | error f => rw [h1, h2] at h; cases h
        | ok rest =>
          rw [h1, h2] at h
          cases h
          obtain ⟨p, hp⟩ := hplan started.length
          obtain ⟨entry', he, hrew⟩ := rewriteEntry_rewritten h1 p
          obtain ⟨json1, hj1, hs1, hk1⟩ := rewriteSite_server hs he
          have hlen : (before ++ [entry']).length = before.length + 1 := by simp
          obtain ⟨json', entries', fs, ha, hs', hsr, hk'⟩ :=
            @ih (before ++ [entry']) rest (hlen ▸ h2) json1 (started ++ [⟨spec.kind, spec.host, spec.port, p⟩]) hs1
          refine ⟨json', entry' :: entries', _ :: fs, ?_, ?_, .rewrite (hrew []) hsr,
            fun k hk => (hk' k hk).trans (hk1 k hk)⟩
          · simp only [applyPluginForwarders, hp, (extractOneSpec_ok h1).1, hj1, ha]
            simp
          · simpa using hs'
    · have hlen : (before ++ [entry]).length = before.length + 1 := by simp
      obtain ⟨json', entries', fs, ha, hs', hsr, hk'⟩ :=
        @ih (before ++ [entry]) specs (hlen ▸ h) json started (by simpa using hs)
      refine ⟨json', entry :: entries', fs, ha, by simpa using hs', .keep ?_ hsr, hk'⟩
      simpa [hasPlugin] using hp

theorem serversOf_eq_some {json : Json} {entries : List Json} :
    serversOf json = some entries ↔ json.get kServers = some (.arr entries) := by
  unfold serversOf
  constructor
  · intro h
    obtain ⟨j, hj, ha⟩ := Option.bind_eq_some_iff.1 h
    unfold Json.asArray at ha
    split at ha
    · rw [hj, Option.some.inj ha]
    · cases ha
  · intro h
    rw [h]; rfl

/-- "servers" after the top level has been dealt with -/
theorem apply_rest (hplan : ∀ n, ∃ p, plan n = .ok p) {json json1 : Json} {specs : List PluginSpec}
    {started : List Forwarder} (h : extractServers 0 ((serversOf json).getD []) = .ok specs)
    (hs : json1.get kServers = json.get kServers) :
    ∃ json' fs, applyPluginForwarders plan started json1 specs = (started ++ fs, some (.ok json')) ∧
      (∀ k, k ≠ kServers → json'.get k = json1.get k) ∧
      match serversOf json with
      | some entries => ∃ entries', json'.get kServers = some (.arr entries') ∧ ServersRewritten entries entries' fs
      | none => fs = [] ∧ json'.get kServers = json.get kServers := by
  cases hso : serversOf json with
  | none =>
    rw [hso] at h
    cases h
    exact ⟨json1, [], by simp [applyPluginForwarders], fun _ _ => rfl, rfl, hs⟩
  | some entries =>
    rw [hso] at h
    obtain ⟨json', entries', fs, ha, hs', hsr, hk⟩ :=
      @apply_servers plan hplan entries [] specs h json1 started (hs.trans (serversOf_eq_some.1 hso))
    exact ⟨json', fs, ha, hk, entries', hs', hsr⟩

/-- **Rewriting.** When every entry is valid and every forwarder starts, the config is rewritten, without a panic. -/
theorem extract_apply (hplan : ∀ n, ∃ p, plan n = .ok p) {json : Json} {specs : List PluginSpec}
    (h : extractPluginSpecs json = .ok specs) :
    ∃ json' fs, applyPluginForwarders plan [] json specs = (fs, some (.ok json')) ∧ ConfigRewritten json json' fs := by
  obtain ⟨top, htop, h⟩ := bind_eq_ok h
  obtain ⟨rest, h2, hspecs⟩ := bind_eq_ok h
  cases hspecs
  unfold extractTop at htop
  by_cases hp : hasPlugin json
  · rw [if_pos hp] at htop
    cases h1 : extractOneSpec json .topLevel with
    | error f => rw [h1] at htop; cases htop
    | ok spec =>
      rw [h1] at htop
      cases htop
      obtain ⟨p, hport⟩ := hplan 0
      obtain ⟨json1, he, hrew⟩ := rewriteEntry_rewritten h1 p
      have hs1 : json1.get kServers = json.get kServers := (hrew []).other _ (by decide) (by simp)
      obtain ⟨json', fs, ha, hk, hservers⟩ :=
        @apply_rest plan hplan json json1 rest [⟨spec.kind, spec.host, spec.port, p⟩] h2 hs1
      refine ⟨json', [⟨spec.kind, spec.host, spec.port, p⟩] ++ fs, ?_, [_], fs, rfl, .rewrite ?_, hservers⟩
      · have hsite : rewriteSite json p spec.site = some json1 := by rw [(extractOneSpec_ok h1).1]; exact he
        show applyPluginForwarders plan [] json (spec :: rest) = _
        simp only [applyPluginForwarders, List.length_nil, hport, hsite, List.nil_append, ha]
      · obtain ⟨r1, r2, r3, r4, r5, r6, r7, r8⟩ := hrew [kServers]
        have hk' : ∀ k, k ∈ [kServer, kServerPort, kPlugin, kPluginOpts] → json'.get k = json1.get k := fun k hkm =>
          hk k fun he => absurd (he ▸ hkm) (by decide)
        refine ⟨r1, r2, r3, ?_, ?_, ?_, ?_, fun k h4 hne => ?_⟩
        · rw [hk' _ (by simp)]; exact r4
        · rw [hk' _ (by simp)]; exact r5
        · rw [hk' _ (by simp)]; exact r6
        · rw [hk' _ (by simp)]; exact r7
        · rw [hk k (by simpa using hne)]
          exact r8 k h4 hne
  · rw [if_neg hp] at htop
    cases htop
    obtain ⟨json', fs, ha, hk, hservers⟩ := @apply_rest plan hplan json json rest [] h2 rfl
    exact ⟨json', fs, ha, [], fs, rfl, .keep (by simpa [hasPlugin] using hp) hk, hservers⟩

/-! ### What the rewritten config looks like -/

theorem ServersRewritten.clean {entries entries' : List Json} {fs : List Forwarder}
    (h : ServersRewritten entries entries' fs) : ∀ entry ∈ entries', entry.get kPlugin = none := by
  induction h with
  | nil => simp
  | keep h _ ih => exact List.forall_mem_cons.2 ⟨h, ih⟩
  | rewrite h _ ih => exact List.forall_mem_cons.2 ⟨h.plugin', ih⟩

theorem ServersRewritten.count {entries entries' : List Json} {fs : List Forwarder}
    (h : ServersRewritten entries entries' fs) : fs.length = entries.countP hasPlugin := by
  induction h with
  | nil => rfl
  | keep h _ ih => simp [ih, hasPlugin, h]
  | rewrite h _ ih =>
    obtain ⟨name, hname, -⟩ := h.kind
    simp [ih, hasPlugin, hname]

theorem TopRewritten.clean {json json' : Json} {fs : List Forwarder} (h : TopRewritten json json' fs) :
    json'.get kPlugin = none := by
  cases h with
  | keep h hk => rw [hk _ (by decide)]; exact h
  | rewrite h => exact h.plugin'

theorem TopRewritten.count {json json' : Json} {fs : List Forwarder} (h : TopRewritten json json' fs) :
    fs.length = [json].countP hasPlugin := by
  cases h with
  | keep h _ => simp [hasPlugin, h]
  | rewrite h =>
    obtain ⟨name, hname, -⟩ := h.kind
    simp [hasPlugin, hname]

/-- the entries of a config: the top level and the elements of "servers" -/
def entriesOf (json : Json) : List Json := json :: (serversOf json).getD []

/-- no entry of a rewritten config has a plugin -/
theorem ConfigRewritten.clean {json json' : Json} {fs : List Forwarder} (h : ConfigRewritten json json' fs) :
    ∀ entry ∈ entriesOf json', entry.get kPlugin = none := by
  obtain ⟨top, servers, -, htop, hservers⟩ := h.parts
  refine List.forall_mem_cons.2 ⟨htop.clean, ?_⟩
  cases hso : serversOf json with
  | none =>
    rw [hso] at hservers
    have : serversOf json' = none := by rw [← hso]; simp [serversOf, hservers.2]
    simp [this]
  | some entries =>
    rw [hso] at hservers
    obtain ⟨entries', hs', hsr⟩ := hservers
    rw [serversOf_eq_some.2 hs']
    exact hsr.clean

/-- there are as many forwarders as entries with a plugin -/
theorem ConfigRewritten.count {json json' : Json} {fs : List Forwarder} (h : ConfigRewritten json json' fs) :
    fs.length = (entriesOf json).countP hasPlugin := by
  obtain ⟨top, servers, hfs, htop, hservers⟩ := h.parts
  have hcons : (entriesOf json).countP hasPlugin =
      [json].countP hasPlugin + ((serversOf json).getD []).countP hasPlugin := by
    rw [← List.countP_append]; rfl
  rw [hfs, List.length_append, htop.count, hcons]
  congr 1
  cases hso : serversOf json with
  | none => rw [hso] at hservers; simp [hservers.1]
  | some entries =>
    rw [hso] at hservers
    obtain ⟨entries', -, hsr⟩ := hservers
    exact hsr.count

/-! ## Invalid entries -/

theorem extractServers_error {entries : List Json} {entry : Json} (hm : entry ∈ entries) (hp : hasPlugin entry)
    (hbad : ∀ site spec, extractOneSpec entry site ≠ .ok spec) (i : ℕ) :
    ∃ f, extractServers i entries = .error f := by
  induction entries generalizing i with
  | nil => cases hm
  | cons e entries ih =>
    unfold extractServers
    rcases List.mem_cons.1 hm with rfl | hm
    · rw [if_pos hp]
      cases h1 : extractOneSpec entry (.server i) with
      | error f => exact ⟨f, rfl⟩
      | ok spec => exact absurd h1 (hbad _ _)
    · obtain ⟨f, hf⟩ := ih hm (i + 1)
      split_ifs with he
      · cases h1 : extractOneSpec e (.server i) with
        | error f' => exact ⟨f', rfl⟩
        | ok spec => exact ⟨f, by rw [hf]; rfl⟩
      · exact ⟨f, hf⟩

theorem extractServers_code {entries : List Json} {i : ℕ} {f : Failure} (h : extractServers i entries = .error f) :
    f.code = sslocalErrBadConfig := by
  induction entries generalizing i with
  | nil => cases h
  | cons e entries ih =>
    unfold extractServers at h
    split_ifs at h with he
    · cases h1 : extractOneSpec e (.server i) with
      | error f' => rw [h1] at h; cases h; exact extractOneSpec_error h1
      | ok spec =>
        cases h2 : extractServers (i + 1) entries with
        | error f' => rw [h1, h2] at h; cases h; exact ih h2
        | ok specs => rw [h1, h2] at h; cases h
    · exact ih h

theorem extractTop_code {json : Json} {f : Failure} (h : extractTop json = .error f) : f.code = sslocalErrBadConfig := by
  unfold extractTop at h
  split_ifs at h
  cases h2 : extractOneSpec json .topLevel with
  | error f' => rw [h2] at h; cases h; exact extractOneSpec_error h2
  | ok spec => rw [h2] at h; cases h

theorem extractPluginSpecs_code {json : Json} {f : Failure} (h : extractPluginSpecs json = .error f) :
    f.code = sslocalErrBadConfig := by
  unfold extractPluginSpecs at h
  cases h1 : extractTop json with
  | error f' => rw [h1] at h; cases h; exact extractTop_code h1
  | ok top =>
    cases h2 : extractServers 0 ((serversOf json).getD []) with
    | error f' => rw [h1, h2] at h; cases h; exact extractServers_code h2
    | ok servers => rw [h1, h2] at h; cases h

/-- **Invalid entries.** One invalid entry makes the whole extraction fail with `SSLOCAL_ERR_BAD_CONFIG`. -/
theorem extract_error {json entry : Json} (hm : entry ∈ entriesOf json) (hp : hasPlugin entry)
    (hbad : ∀ site spec, extractOneSpec entry site ≠ .ok spec) :
    ∃ f, extractPluginSpecs json = .error f ∧ f.code = sslocalErrBadConfig := by
  cases h1 : extractTop json with
  | error f => exact ⟨f, by unfold extractPluginSpecs; rw [h1]; rfl, extractTop_code h1⟩
  | ok top =>
    rcases List.mem_cons.1 hm with rfl | hm
    · unfold extractTop at h1
      rw [if_pos hp] at h1
      cases h2 : extractOneSpec entry .topLevel with
      | error f' => rw [h2] at h1; cases h1
      | ok spec => exact absurd h2 (hbad _ _)
    · obtain ⟨f, hf⟩ := extractServers_error hm hp hbad 0
      exact ⟨f, by unfold extractPluginSpecs; rw [h1, hf]; rfl, extractServers_code hf⟩

end ShadowsocksOhos
