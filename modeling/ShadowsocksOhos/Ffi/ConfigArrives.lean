/-
The config of a profile on its way from the app to the core: `toTunConfig`, `JSON.stringify`, the bridge, `serde_json`,
`extract_plugin_specs` and `apply_plugin_forwarders`. What `serde_json` reads is given by its documentation, for what
`JSON.stringify` writes of values made of texts, natural numbers, arrays and objects (`ReadsWritten`).
- `fromUtf16_utf16`: a string that is a text is read as this text.
- `config_says`: the config that `serde_json` hands on says what the profile says.
- `config_arrives`: so do the forwarder that is started for it, and the config for the core; a plugin that is refused is
told to the app.
-/
import ShadowsocksOhos.Ffi.Bridge
import ShadowsocksOhos.Ffi.Running

namespace ShadowsocksOhos

variable {α : Type}

namespace Bridge

open JsonPrint (Plain)
open Stringify (stringify)

/-! ## What is read -/

/-- the text that a string is, if it has no unpaired surrogate -/
def fromUtf16 (s : JsString) : Option Text := toStr (uint8Array (encodeUtf8 s))

mutual

/-- what `serde_json` makes of a value, down to a depth; of numbers, only those that are natural numbers are described -/
def toSerde : ℕ → JsValue → Option Json
  | _, .null => some .null
  | _, .bool b => some (.bool b)
  | _, .num (.finite q) => if q.den = 1 ∧ 0 ≤ q.num ∧ q.num < 2 ^ 53 then some (written q.num.toNat) else none
  | _, .num (.infinite _) => none
  | _, .str s => (fromUtf16 s).map .str
  | 0, .arr _ => none
  | d + 1, .arr items => (toSerdeItems d items).map .arr
  | 0, .obj _ => none
  | d + 1, .obj fields => (toSerdeFields d fields).map .obj

def toSerdeItems : ℕ → List JsValue → Option (List Json)
  | _, [] => some []
  | d, v :: vs => do
    let j ← toSerde d v
    let js ← toSerdeItems d vs
    some (j :: js)

def toSerdeFields : ℕ → List (JsString × JsValue) → Option (List (Text × Json))
  | _, [] => some []
  | d, (k, v) :: fields => do
    let key ← fromUtf16 k
    let j ← toSerde d v
    let js ← toSerdeFields d fields
    some ((key, j) :: js)

end

/-- `serde_json` reads what `JSON.stringify` has written, if it is nested 127 times at most -/
def ReadsWritten (P : Parsers α) : Prop := ∀ v j t, Plain v → toSerde 127 v = some j → utf16 t = stringify v → P.json t = .ok j

/-! ### Texts -/

theorem paired_codeUnits (c : Char) : paired (codeUnits c.toNat) = true := by
  have hc := c.valid
  have hcn : c.val.toNat = c.toNat := rfl
  unfold UInt32.isValidChar Nat.isValidChar at hc
  rw [hcn] at hc
  unfold codeUnits
  split_ifs with h
  · have hlt := toNat_fromCharCode h
    simp only [paired, isHigh, isLow, hlt, Bool.and_eq_true, Bool.not_eq_true', Bool.and_eq_false_iff,
      decide_eq_false_iff_not]
    omega
  · have hpair : isHigh (fromCharCode (0xd800 + ((c.toNat - 0x10000) >>> 10))) = true ∧
        isLow (fromCharCode (0xdc00 + ((c.toNat - 0x10000) &&& 0x3ff))) = true := by
      simp only [isHigh, isLow, toNat_high (show c.toNat < 0x110000 by omega), toNat_low, Bool.and_eq_true, decide_eq_true_eq]
      omega
    simp [paired, hpair]

theorem paired_utf16 (t : Text) : paired (utf16 t) = true := by
  induction t with
  | nil => rfl
  | cons c t ih =>
    rw [utf16_cons]
    exact Stringify.paired_append (paired_codeUnits c) ih

/-- **A text is encoded in UTF-8**, and is read as itself. -/
theorem encodeUtf8_utf16 (t : Text) : encodeUtf8 (utf16 t) = numbers (utf8 t) := by
  obtain ⟨t', ht, hbytes⟩ := encode_paired (paired_utf16 t)
  rw [hbytes, utf16_injective ht]

theorem uint8Array_numbers (bytes : List UInt8) : uint8Array (numbers bytes) = bytes := by
  unfold uint8Array numbers
  rw [List.map_map]
  exact (List.map_congr_left fun b _ => UInt8.ofNat_toNat).trans (List.map_id _)

theorem fromUtf16_utf16 (t : Text) : fromUtf16 (utf16 t) = some t := by
  unfold fromUtf16
  rw [encodeUtf8_utf16, uint8Array_numbers, toStr_utf8]

/-! ## The profile and its config -/

/-- what a profile tells -/
structure Told where
  host : Text
  port : ℕ
  password : Text
  method : Text
  route : JsString
  plugin : Text
  pluginOpts : Text

/-- the fields of a profile are texts, and its port is one -/
structure Tells (p : JsProfile) (t : Told) : Prop where
  host : p.host = .str (utf16 t.host)
  port : p.remotePort = .num (.finite t.port)
  port_le : t.port ≤ 65535
  password : p.password = .str (utf16 t.password)
  method : p.method = .str (utf16 t.method)
  route : p.route = .str t.route
  plugin : p.plugin = .str (utf16 t.plugin)
  pluginOpts : p.pluginOpts = .str (utf16 t.pluginOpts)

/-- the rules that are deployed -/
def Told.acl (t : Told) (aclPath : Text) : Option Text := if t.route ≠ ROUTE_ALL ∧ aclPath ≠ [] then some aclPath else none

/-- a config says what was told, the plugin apart -/
structure Says (json : Json) (t : Told) (acl : Option Text) : Prop where
  locals : json.get "locals".toList = some (.arr [.obj [("protocol".toList, .str "tun".toList)]])
  server : json.get kServer = some (.str t.host)
  port : json.get kServerPort = some (written t.port)
  password : json.get "password".toList = some (.str t.password)
  method : json.get "method".toList = some (.str t.method)
  mode : json.get "mode".toList = some (.str "tcp_and_udp".toList)
  acl : json.get "acl".toList = acl.map .str
  servers : json.get kServers = none

/-- the forwarder that a profile calls for -/
def Told.specs (t : Told) : Except Failure (List PluginSpec) :=
  if t.plugin = [] then .ok []
  else
    match parsePlugin t.plugin t.pluginOpts with
    | .ok kind => .ok [⟨.topLevel, kind, t.host, UInt16.ofNat t.port⟩]
    | .error e => .error (badConfig e.toText)

/-- what the core is told when this forwarder has been started -/
def Told.through (t : Told) : List Forwarder → Told
  | f :: _ => { t with host := "127.0.0.1".toList, port := f.localPort.toNat }
  | [] => t

/-- the config as `serde_json` reads it -/
def Told.json (t : Told) (aclPath : Text) : Json :=
  .obj ([("locals".toList, .arr [.obj [("protocol".toList, .str "tun".toList)]]), (kServer, .str t.host),
    (kServerPort, written t.port), ("password".toList, .str t.password), ("method".toList, .str t.method),
    ("mode".toList, .str "tcp_and_udp".toList)] ++
    (if t.plugin ≠ [] then [(kPlugin, .str t.plugin), (kPluginOpts, .str t.pluginOpts)] else []) ++
    if t.route ≠ ROUTE_ALL ∧ aclPath ≠ [] then [("acl".toList, .str aclPath)] else [])

theorem fromUtf16_js (s : String) : fromUtf16 (js s) = some s.toList := fromUtf16_utf16 s.toList

theorem toSerde_text (d : ℕ) (t : Text) : toSerde d (.str (utf16 t)) = some (.str t) := by
  unfold toSerde
  rw [fromUtf16_utf16]
  rfl

theorem toSerde_js (d : ℕ) (s : String) : toSerde d (.str (js s)) = some (.str s.toList) := toSerde_text d s.toList

theorem toSerde_nat (d : ℕ) {k : ℕ} (h : k < 2 ^ 53) : toSerde d (.num (.finite k)) = some (written k) := by
  unfold toSerde
  have hnum : ((k : ℚ)).num = k := Rat.num_natCast k
  rw [if_pos ⟨Rat.den_natCast k, by omega, by omega⟩, hnum]
  rfl

theorem toSerdeFields_append {d : ℕ} {a b : List (JsString × JsValue)} {a' b' : List (Text × Json)}
    (ha : toSerdeFields d a = some a') (hb : toSerdeFields d b = some b') : toSerdeFields d (a ++ b) = some (a' ++ b') := by
  induction a generalizing a' with
  | nil =>
    rw [toSerdeFields, Option.some.injEq] at ha
    rw [← ha]
    exact hb
  | cons field a ih =>
    obtain ⟨k, v⟩ := field
    rw [toSerdeFields] at ha
    obtain ⟨key, hkey, ha⟩ := Option.bind_eq_some_iff.1 ha
    obtain ⟨j, hj, ha⟩ := Option.bind_eq_some_iff.1 ha
    obtain ⟨rest, hrest, ha⟩ := Option.bind_eq_some_iff.1 ha
    rw [List.cons_append, toSerdeFields, hkey, hj, ih hrest, ← Option.some.inj ha]
    rfl

theorem toSerdeFields_cons {d : ℕ} {k : String} {v : JsValue} {j : Json} {fields : List (JsString × JsValue)}
    {fields' : List (Text × Json)} (hv : toSerde d v = some j) (h : toSerdeFields d fields = some fields') :
    toSerdeFields d ((js k, v) :: fields) = some ((k.toList, j) :: fields') := by
  rw [toSerdeFields, fromUtf16_js, hv, h]
  rfl

/-- the config that the app writes -/
def Told.config (t : Told) (aclPath : Text) : JsValue :=
  .obj ([(js "locals", .arr [.obj [(js "protocol", .str (js "tun"))]]), (js "server", .str (utf16 t.host)),
    (js "server_port", .num (.finite t.port)), (js "password", .str (utf16 t.password)),
    (js "method", .str (utf16 t.method)), (js "mode", .str (js "tcp_and_udp"))] ++
    (if t.plugin ≠ [] then [(js "plugin", .str (utf16 t.plugin)), (js "plugin_opts", .str (utf16 t.pluginOpts))] else []) ++
    if t.route ≠ ROUTE_ALL ∧ aclPath ≠ [] then [(js "acl", .str (utf16 aclPath))] else [])

theorem utf16_ne_nil_iff (t : Text) : utf16 t ≠ [] ↔ t ≠ [] :=
  not_congr ⟨fun h => utf16_injective (h.trans utf16_nil.symm), fun h => h ▸ utf16_nil⟩

theorem toTunConfig_told {p : JsProfile} {t : Told} (h : Tells p t) (aclPath : Text) :
    p.toTunConfig (utf16 aclPath) = some (t.config aclPath) := by
  unfold JsProfile.toTunConfig Told.config
  rw [h.plugin, JsValue.lengthPositive_str, h.route, h.host, h.port, h.password, h.method, h.pluginOpts]
  simp only [decide_eq_true_eq, utf16_ne_nil_iff, Option.bind_eq_bind, Option.bind_some]

theorem toSerdeFields_nil (d : ℕ) : toSerdeFields d [] = some [] := by rw [toSerdeFields]

theorem toSerde_config {t : Told} (hport : t.port ≤ 65535) (aclPath : Text) :
    toSerde 127 (t.config aclPath) = some (t.json aclPath) := by
  have hlocals : toSerde 126 (.arr [.obj [(js "protocol", .str (js "tun"))]]) =
      some (.arr [.obj [("protocol".toList, .str "tun".toList)]]) := by
    have hobj := toSerdeFields_cons (k := "protocol") (toSerde_js 124 "tun") (toSerdeFields_nil 124)
    rw [toSerde, toSerdeItems, toSerde, hobj, toSerdeItems]
    rfl
  have hplugin : toSerdeFields 126 (if t.plugin ≠ [] then
        [(js "plugin", .str (utf16 t.plugin)), (js "plugin_opts", .str (utf16 t.pluginOpts))] else []) =
      some (if t.plugin ≠ [] then [(kPlugin, .str t.plugin), (kPluginOpts, .str t.pluginOpts)] else []) := by
    by_cases h : t.plugin ≠ []
    · rw [if_pos h, if_pos h]
      exact toSerdeFields_cons (toSerde_text _ _) (toSerdeFields_cons (toSerde_text _ _) (toSerdeFields_nil 126))
    · rw [if_neg h, if_neg h]
      exact toSerdeFields_nil 126
  have hacl : toSerdeFields 126 (if t.route ≠ ROUTE_ALL ∧ aclPath ≠ [] then [(js "acl", .str (utf16 aclPath))] else []) =
      some (if t.route ≠ ROUTE_ALL ∧ aclPath ≠ [] then [("acl".toList, .str aclPath)] else []) := by
    split_ifs
    · exact toSerdeFields_cons (toSerde_text _ _) (toSerdeFields_nil 126)
    · exact toSerdeFields_nil 126
  have hport' : toSerde 126 (.num (.finite t.port)) = some (written t.port) := toSerde_nat 126 (by omega)
  have hbase := toSerdeFields_cons (k := "locals") hlocals (toSerdeFields_cons (k := "server") (toSerde_text 126 t.host)
    (toSerdeFields_cons (k := "server_port") hport' (toSerdeFields_cons (k := "password") (toSerde_text 126 t.password)
      (toSerdeFields_cons (k := "method") (toSerde_text 126 t.method) (toSerdeFields_cons (k := "mode")
        (toSerde_js 126 "tcp_and_udp") (toSerdeFields_nil 126))))))
  unfold Told.config
  rw [toSerde, toSerdeFields_append (toSerdeFields_append hbase hplugin) hacl]
  rfl

theorem plain_config {t : Told} (hport : t.port ≤ 65535) (aclPath : Text) : Plain (t.config aclPath) := by
  have hdouble : Binary64.IsDouble (t.port : ℚ) := Binary64.isDouble_int (n := t.port) (by omega)
  unfold Told.config
  split_ifs <;>
    simp only [List.cons_append, List.nil_append, List.append_nil, Plain, JsonPrint.PlainItems, JsonPrint.PlainFields,
      hdouble, and_true, List.map_cons, List.map_nil] <;>
    decide

/-- the keys that only some configs have -/
theorem get_optional (t : Told) (aclPath : Text) :
    (t.json aclPath).get kPlugin = (if t.plugin ≠ [] then some (.str t.plugin) else none) ∧
      (t.json aclPath).get kPluginOpts = (if t.plugin ≠ [] then some (.str t.pluginOpts) else none) ∧
      (t.json aclPath).get "acl".toList = (t.acl aclPath).map .str ∧ (t.json aclPath).get kServers = none := by
  unfold Told.json Told.acl
  by_cases hplugin : t.plugin ≠ [] <;> by_cases hacl : t.route ≠ ROUTE_ALL ∧ aclPath ≠ []
  · rw [if_pos hplugin, if_pos hacl, if_pos hplugin, if_pos hplugin, if_pos hacl]
    exact ⟨rfl, rfl, rfl, rfl⟩
  · rw [if_pos hplugin, if_neg hacl, if_pos hplugin, if_pos hplugin, if_neg hacl]
    exact ⟨rfl, rfl, rfl, rfl⟩
  · rw [if_neg hplugin, if_pos hacl, if_neg hplugin, if_neg hplugin, if_pos hacl]
    exact ⟨rfl, rfl, rfl, rfl⟩
  · rw [if_neg hplugin, if_neg hacl, if_neg hplugin, if_neg hplugin, if_neg hacl]
    exact ⟨rfl, rfl, rfl, rfl⟩

/-- **The config says what the profile says.** -/
theorem says_json (t : Told) (aclPath : Text) : Says (t.json aclPath) t (t.acl aclPath) := by
  obtain ⟨-, -, hacl, hservers⟩ := get_optional t aclPath
  exact ⟨rfl, rfl, rfl, rfl, rfl, rfl, hacl, hservers⟩

/-- and it calls for the forwarder of its plugin -/
theorem top_json (t : Told) (hport : t.port ≤ 65535) (aclPath : Text) : extractTop (t.json aclPath) = t.specs := by
  obtain ⟨hplugin, hopts, -, -⟩ := get_optional t aclPath
  have hs := says_json t aclPath
  unfold extractTop hasPlugin extractOneSpec optsOf Told.specs
  rw [hplugin, hopts, hs.server, portOf_written hport hs.port]
  by_cases h : t.plugin = []
  · rw [if_neg (not_not.2 h), if_pos h]
    rfl
  · rw [if_pos h, if_pos h, if_neg h]
    simp only [Option.isSome_some, if_true, Option.bind_some, Json.asStr, Option.getD_some]
    cases parsePlugin t.plugin t.pluginOpts <;> rfl

theorem specs_json (t : Told) (hport : t.port ≤ 65535) (aclPath : Text) : extractPluginSpecs (t.json aclPath) = t.specs := by
  have hservers : serversOf (t.json aclPath) = none := by rw [serversOf, (says_json t aclPath).servers, Option.bind_none]
  unfold extractPluginSpecs
  rw [hservers, top_json t hport aclPath]
  cases t.specs with
  | error e => rfl
  | ok specs =>
    change Except.ok (specs ++ []) = Except.ok specs
    rw [List.append_nil]

/-! ## Main result -/

theorem written_port (port : UInt16) : written port.toNat = portJson port := by
  unfold written portJson
  congr 2
  exact UInt64.toNat_inj.1 (by simp)

/-- a config is rewritten for the forwarder of its plugin -/
theorem rewritten_json {t : Told} (hport : t.port ≤ 65535) (aclPath : Text) {specs : List PluginSpec} (h : t.specs = .ok specs)
    {plan : ℕ → Except Text UInt16} (hplan : ∀ i, ∃ port, plan i = .ok port) :
    ∃ json' fs, applyPluginForwarders plan [] (t.json aclPath) specs = (fs, some (.ok json')) ∧
      fs.map (fun f => (f.kind, f.host, f.port)) = specs.map (fun s => (s.kind, s.host, s.port)) ∧
      Says json' (t.through fs) (t.acl aclPath) ∧ json'.get kPlugin = none ∧ json'.get kPluginOpts = none := by
  have hs := says_json t aclPath
  obtain ⟨hplugin, hopts, -, -⟩ := get_optional t aclPath
  have htop := top_json t hport aclPath
  by_cases hempty : t.plugin = []
  · rw [Told.specs, if_pos hempty] at h
    cases h
    rw [if_neg (not_not.2 hempty)] at hplugin hopts
    exact ⟨t.json aclPath, [], rfl, rfl, hs, hplugin, hopts⟩
  · -- one spec, which was extracted from the top level
    obtain ⟨spec, rfl⟩ : ∃ spec, specs = [spec] := by
      rw [Told.specs, if_neg hempty] at h
      cases hparse : parsePlugin t.plugin t.pluginOpts with
      | ok kind =>
        rw [hparse] at h
        cases h
        exact ⟨_, rfl⟩
      | error e =>
        rw [hparse] at h
        cases h
    have hone : extractOneSpec (t.json aclPath) .topLevel = .ok spec := by
      have hhas : hasPlugin (t.json aclPath) = true := by rw [hasPlugin, hplugin, if_pos hempty]; rfl
      rw [h, extractTop, if_pos hhas] at htop
      cases hext : extractOneSpec (t.json aclPath) .topLevel with
      | ok spec' =>
        rw [hext] at htop
        cases htop
        rfl
      | error e =>
        rw [hext] at htop
        cases htop
    obtain ⟨localPort, hlocal⟩ := hplan 0
    obtain ⟨json', hrewrite, hrewritten⟩ := rewriteEntry_rewritten hone localPort
    have hr := hrewritten []
    have hsame : ∀ k, k ∉ [kServer, kServerPort, kPlugin, kPluginOpts] → json'.get k = (t.json aclPath).get k := fun k hk =>
      hr.other k hk (List.not_mem_nil)
    refine ⟨json', [⟨spec.kind, spec.host, spec.port, localPort⟩], ?_, rfl, ⟨?_, hr.server', ?_, ?_, ?_, ?_, ?_, ?_⟩,
      hr.plugin', hr.opts'⟩
    · have hsite : spec.site = .topLevel := (extractOneSpec_ok hone).1
      simp only [applyPluginForwarders, List.length_nil, hlocal, hsite, rewriteSite, hrewrite, List.nil_append]
    · exact (hsame _ (by decide)).trans hs.locals
    · exact hr.port'.trans (congrArg some (written_port localPort).symm)
    · exact (hsame _ (by decide)).trans hs.password
    · exact (hsame _ (by decide)).trans hs.method
    · exact (hsame _ (by decide)).trans hs.mode
    · exact (hsame _ (by decide)).trans hs.acl
    · exact (hsame _ (by decide)).trans hs.servers

/-- **The config arrives.** For every profile whose fields are texts and whose port is one: what `toTunConfig` writes passes
the bridge whole, whatever characters are in it; the core reads what the profile says; it calls for the forwarder of the
profile's plugin, or refuses it with the message of `parse_plugin`, which the app then reads as the last error, as far as a C
string can hold it; and when the forwarder has been started for the host and the port of the profile, the core is told to
connect to it, and all else as before. -/
theorem config_arrives {n : Napi} (hn : n.Documented) {P : Parsers α} (hP : ReadsWritten P) (utf8Error : List UInt8 → Text)
    (p : JsProfile) (t : Told) (hp : Tells p t) (aclPath : Text) :
    ∃ config json, p.toTunConfig (utf16 aclPath) = some config ∧
      parseConfigJson P (arg n utf8Error (stringify config)) = .ok json ∧ Says json t (t.acl aclPath) ∧
      extractPluginSpecs json = t.specs ∧
      (∀ f, t.specs = .error f → ∀ (x : Running.Answers α) (g : Globals α) (tunFd : Int), 0 ≤ tunFd →
        ∃ g', Running.answer P x g (entryCall n utf8Error (.startTunFd (stringify config) tunFd)) = some (f.code, g') ∧
          lastError n g'.lastError = some (utf16 (cString f.message))) ∧
      ∀ specs, t.specs = .ok specs → ∀ plan : ℕ → Except Text UInt16, (∀ i, ∃ port, plan i = .ok port) →
        ∃ json' fs, applyPluginForwarders plan [] json specs = (fs, some (.ok json')) ∧
          fs.map (fun f => (f.kind, f.host, f.port)) = specs.map (fun s => (s.kind, s.host, s.port)) ∧
          Says json' (t.through fs) (t.acl aclPath) ∧ json'.get kPlugin = none ∧ json'.get kPluginOpts = none := by
  obtain ⟨text, htext, harg⟩ := arg_stringify utf8Error hn (t.config aclPath)
  have hjson := hP _ _ text (plain_config hp.port_le aclPath) (toSerde_config hp.port_le aclPath) htext
  have hspecs := specs_json t hp.port_le aclPath
  have hparse : parseConfigJson P (arg n utf8Error (stringify (t.config aclPath))) = .ok (t.json aclPath) := by
    simp only [harg, parseConfigJson, cstrArg, bind, Except.bind, hjson]
  refine ⟨t.config aclPath, t.json aclPath, toTunConfig_told hp aclPath, hparse, says_json t aclPath, hspecs,
    fun f h x g tunFd hfd => ⟨(g.fail f).2, ?_, lastError_cString hn f.message⟩,
    fun specs h plan hplan => rewritten_json hp.port_le aclPath h hplan⟩
  rw [h] at hspecs
  simp only [entryCall, Running.answer, Running.startCall, if_neg (not_lt.2 hfd), hparse, startWithJson, hspecs]
  rfl

/-- an engine that converts strings with the codec of the app -/
def engine : Napi where
  utf8Length s := (encodeUtf8 s).length
  copyUtf8 s size := (uint8Array (encodeUtf8 s)).take (size - 1)
  createString bytes := decodeUtf8 (numbers bytes)

theorem documented_engine : engine.Documented where
  length t := by
    change (encodeUtf8 (utf16 t)).length = _
    rw [encodeUtf8_utf16, numbers, List.length_map]
  copy t size h := by
    change (uint8Array (encodeUtf8 (utf16 t))).take (size - 1) = _
    rw [encodeUtf8_utf16, uint8Array_numbers, List.take_of_length_le (by omega)]
  create := decode_utf8

/-- a reader that runs the machine of `JSON.parse` -/
def machine : Parsers ℕ where
  json t := (((jsonParse (utf16 t)).bind (toSerde 127)).map .ok).getD (.error "expected value".toList)
  addr _ := .ok 7

theorem reads_machine : ReadsWritten machine := by
  intro v j t hplain hj ht
  unfold machine
  simp only [ht, Stringify.jsonParse_stringify hplain, Option.bind_some, hj, Option.map_some, Option.getD_some]

/-- a NUL and a quotation mark in the password -/
def toldObfs : Told :=
  ⟨"a.example".toList, 8388, ['p', '\x00', '"'], "aes-256-gcm".toList, ROUTE_ALL, "obfs-local".toList,
    "obfs=http;obfs-host=cdn.example".toList⟩

def Told.profile (t : Told) : JsProfile where
  id := .str []
  name := .str []
  host := .str (utf16 t.host)
  remotePort := .num (.finite t.port)
  password := .str (utf16 t.password)
  method := .str (utf16 t.method)
  route := .str t.route
  subscriptionId := .str []
  localAddress := .str []
  localPort := .num (.finite 0)
  plugin := .str (utf16 t.plugin)
  pluginOpts := .str (utf16 t.pluginOpts)

/-- without the mode of the obfuscation -/
def toldBare : Told := { toldObfs with pluginOpts := [] }

theorem config_arrives_obfs : (∃ config json, toldObfs.profile.toTunConfig (utf16 []) = some config ∧
    parseConfigJson machine (arg engine (fun _ => []) (stringify config)) = .ok json ∧
    json.get "password".toList = some (.str ['p', '\x00', '"']) ∧
    extractPluginSpecs json =
      .ok [⟨.topLevel, .simpleObfsHttp "cdn.example".toList, "a.example".toList, 8388⟩]) ∧
    ∃ config g', toldBare.profile.toTunConfig (utf16 []) = some config ∧
      Running.answer machine Running.goesWell ⟨none, none, none⟩
        (entryCall engine (fun _ => []) (.startTunFd (stringify config) 5)) = some (sslocalErrBadConfig, g') ∧
      lastError engine g'.lastError = some (js "simple-obfs: missing 'obfs=http|tls' option") := by
  constructor
  · have htells : Tells toldObfs.profile toldObfs := ⟨rfl, rfl, by decide, rfl, rfl, rfl, rfl, rfl⟩
    obtain ⟨config, json, hconfig, hjson, hsays, hspecs, -⟩ :=
      config_arrives documented_engine reads_machine (fun _ => []) toldObfs.profile toldObfs htells []
    have htold : toldObfs.specs = .ok [⟨.topLevel, .simpleObfsHttp "cdn.example".toList, "a.example".toList, 8388⟩] := rfl
    exact ⟨config, json, hconfig, hjson, hsays.password, hspecs.trans htold⟩
  · have htells : Tells toldBare.profile toldBare := ⟨rfl, rfl, by decide, rfl, rfl, rfl, rfl, rfl⟩
    obtain ⟨config, -, hconfig, -, -, -, hrefused, -⟩ :=
      config_arrives documented_engine reads_machine (fun _ => []) toldBare.profile toldBare htells []
    have htold : toldBare.specs = .error (badConfig "simple-obfs: missing 'obfs=http|tls' option".toList) := rfl
    obtain ⟨g', hanswer, herror⟩ := hrefused _ htold Running.goesWell ⟨none, none, none⟩ 5 (by decide)
    refine ⟨config, g', hconfig, hanswer, herror.trans ?_⟩
    rw [cString, if_neg (by decide)]
    rfl

end Bridge

end ShadowsocksOhos
