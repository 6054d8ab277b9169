/-
The same servers as a list of SIP002 URLs and as a SIP008 document (`parseSubscriptionBody`, then `toTunConfig`). The names
and the servers are the same; `parseSip008` does not look at "plugin" and "plugin_opts".

- `listed_list`, `textProfiles_served`: the profiles of each format, server by server.
- `formats_iff`: the names and the configs for the core are the same exactly when no server has a plugin.
- `dropped`: a server with one.
-/
import ShadowsocksOhos.App.JsonPrint
import ShadowsocksOhos.App.SubscriptionForms

namespace ShadowsocksOhos

namespace SubscriptionBody

/-! ## Servers in both formats -/

/-- a server with a name, and with a plugin or without -/
structure Entry where
  server : Server
  name : List Char
  plugin : Option PluginQuery
  name_ne : name ≠ []
  /-- the host is a name or an IPv4 address -/
  host_name : ∃ s ne ok, server.host = .name s ne ok ∧ '\n' ∉ s

/-- the SIP002 URL of a server, with a base64 form for the user info, and with a slash after the port or without -/
def Entry.url (e : Entry) (f : Base64Form) (slash : Bool) : JsString :=
  sip002Url f e.server slash e.plugin (some e.name)

/-- the body is the URLs of the servers, line by line; the last line may be without an end of line -/
inductive ServesList : JsString → List Entry → Prop where
  | nil : ServesList [] []
  | last (e : Entry) (f : Base64Form) (slash : Bool) : ServesList (e.url f slash) [e]
  | cons (e : Entry) (f : Base64Form) (slash : Bool) {eol rest : JsString} {es : List Entry}
      (heol : eol = js "\n" ∨ eol = js "\r\n") (hrest : ServesList rest es) :
      ServesList (e.url f slash ++ eol ++ rest) (e :: es)

/-- the element of "servers" for a server -/
def DescribesEntry (v : JsValue) (e : Entry) : Prop :=
  ∃ fields, v = .obj fields ∧
    Dict.get (js "server") fields = some (.str (utf16 e.server.host.value)) ∧
    Dict.get (js "server_port") fields = some (.num (.finite e.server.port)) ∧
    Dict.get (js "method") fields = some (.str (utf16 e.server.method)) ∧
    Dict.get (js "password") fields = some (.str (utf16 e.server.password)) ∧
    Dict.get (js "remarks") fields = some (.str (utf16 e.name)) ∧
    ∀ p, e.plugin = some p → Dict.get (js "plugin") fields = some (.str (utf16 p.plugin)) ∧
      Dict.get (js "plugin_opts") fields = some (.str (utf16 p.opts))

/-- the body is a SIP008 document of the servers -/
def ServesDocument (body : JsString) (entries : List Entry) : Prop :=
  ∃ fields items, jsonParse body = some (.obj fields) ∧ Dict.get (js "servers") fields = some (.arr items) ∧
    List.Forall₂ DescribesEntry items entries

/-! ## The list -/

theorem notMem_url (e : Entry) (f : Base64Form) (slash : Bool) : unit '\n' ∉ e.url f slash := by
  have hquiet : quiet (unit '\n') = false := by decide
  have hhost : unit '\n' ∉ utf16 e.server.host.text := by
    obtain ⟨s, ne, ok, hs, hlf⟩ := e.host_name
    rw [hs, mem_utf16 (by decide)]
    exact hlf
  have hport : unit '\n' ∉ utf16 (Nat.toDigits 10 e.server.port) :=
    quiet_notMem (fun u hu => isDigit_quiet (isDigit_toDigits _ u hu)) hquiet
  have hslash : unit '\n' ∉ slashText slash := by cases slash <;> decide
  have hquery : unit '\n' ∉ queryText e.plugin := by
    cases e.plugin with
    | none => exact List.not_mem_nil
    | some p =>
      intro hm
      rcases List.mem_append.1 hm with h | h
      · revert h
        decide
      · exact quiet_notMem (quiet_encodeURI _) hquiet h
  have hname : unit '\n' ∉ fragmentText (some e.name) := by
    intro hm
    rcases List.mem_cons.1 hm with h | h
    · revert h
      decide
    · exact quiet_notMem (quiet_encodeURI _) hquiet h
  have henc := quiet_notMem (quiet_base64 f (utf8 (userInfoText e.server))) hquiet
  have hss : unit '\n' ∉ js "ss://" := by decide
  have hat : unit '\n' ≠ unit '@' := by decide
  have hcolon : unit '\n' ≠ unit ':' := by decide
  unfold Entry.url sip002Url hostPortText
  rw [utf16_append, utf16_cons_basic (by decide)]
  simp only [List.mem_append, List.mem_cons, not_or]
  exact ⟨hss, ⟨⟨henc, hat, ⟨hhost, hcolon, hport⟩, hslash⟩, hquery⟩, hname⟩

/-- a line without a line feed in it is one entry -/
theorem entriesFrom_line {line : JsString} (h : unit '\n' ∉ line) (pre rest : JsString) :
    entriesFrom pre (line ++ unit '\n' :: rest) = keep (jsTrim (pre ++ line)) ++ entriesFrom [] rest := by
  induction line generalizing pre with
  | nil =>
    rw [List.nil_append, List.append_nil]
    conv_lhs => unfold entriesFrom
    rw [if_pos rfl]
  | cons u line ih =>
    have hu : u ≠ unit '\n' := fun he => h (he ▸ List.mem_cons_self)
    rw [List.cons_append]
    conv_lhs => unfold entriesFrom
    rw [if_neg hu, ih fun hm => h (List.mem_cons_of_mem _ hm), List.append_assoc, List.singleton_append]

theorem entriesFrom_last {line : JsString} (h : unit '\n' ∉ line) (pre : JsString) :
    entriesFrom pre line = keep (jsTrim (pre ++ line)) := by
  induction line generalizing pre with
  | nil => rw [List.append_nil]; rfl
  | cons u line ih =>
    have hu : u ≠ unit '\n' := fun he => h (he ▸ List.mem_cons_self)
    unfold entriesFrom
    rw [if_neg hu, ih fun hm => h (List.mem_cons_of_mem _ hm), List.append_assoc, List.singleton_append]

/-- the profile that a URL of the server gives -/
def Entry.listProfile (e : Entry) : JsProfile := (e.server.profile e.plugin (some e.name)).toJs

/-- the entry of a URL -/
theorem keep_url (e : Entry) (f : Base64Form) (slash : Bool) :
    (keep (jsTrim (e.url f slash))).filterMap (fun entry => (parseUrl entry).map Profile.toJs) = [e.listProfile] := by
  have hparse : parseUrl (jsTrim (e.url f slash)) = some (e.server.profile e.plugin (some e.name)) := by
    rw [parseUrl_jsTrim]
    exact parse_sip002 f e.server slash e.plugin (some e.name)
  have hne : jsTrim (e.url f slash) ≠ [] := by
    intro h
    rw [parseUrl_jsTrim, parseUrl_blank h] at hparse
    cases hparse
  unfold keep
  rw [if_neg hne, List.filterMap_cons_some (b := e.listProfile) (by rw [hparse]; rfl)]
  rfl

theorem listed_list {body : JsString} {es : List Entry} (h : ServesList body es) :
    listed body = es.map Entry.listProfile := by
  rw [listed_eq, entries_eq]
  induction h with
  | nil => rfl
  | last e f slash =>
    rw [entriesFrom_last (notMem_url e f slash), List.nil_append, keep_url]
    rfl
  | @cons e f slash eol rest es heol hrest ih =>
    have hurl := notMem_url e f slash
    have hentries : entriesFrom [] (e.url f slash ++ eol ++ rest) = keep (jsTrim (e.url f slash)) ++ entriesFrom [] rest := by
      rcases heol with rfl | rfl
      · have hlf : js "\n" = [unit '\n'] := by decide
        rw [hlf, List.append_assoc, List.singleton_append, entriesFrom_line hurl, List.nil_append]
      · -- the carriage return is trimmed
        have hcrlf : js "\r\n" = [unit '\r'] ++ [unit '\n'] := by decide
        have hcr : unit '\n' ∉ e.url f slash ++ [unit '\r'] := by
          rw [List.mem_append, not_or]
          exact ⟨hurl, by decide⟩
        rw [hcrlf, ← List.append_assoc, List.append_assoc (e.url f slash ++ [unit '\r']), List.singleton_append,
          entriesFrom_line hcr, List.nil_append, jsTrim_snoc (by decide)]
    rw [hentries, List.filterMap_append, keep_url, ih, List.map_cons, List.singleton_append]

theorem list_head {body : JsString} {es : List Entry} (h : ServesList body es) : body = [] ∨ js "ss://" <+: body := by
  have hurl : ∀ (e : Entry) f slash, js "ss://" <+: e.url f slash := fun e f slash => List.prefix_append _ _
  cases h with
  | nil => exact Or.inl rfl
  | last e f slash => exact Or.inr (hurl e f slash)
  | cons e f slash heol hrest =>
    refine Or.inr ((hurl e f slash).trans ?_)
    rw [List.append_assoc]
    exact List.prefix_append _ _

/-- a list looks like one -/
theorem bodyText_list {body : JsString} {es : List Entry} (h : ServesList body es) :
    bodyText body = some (jsTrim body) ∧ ¬ js "\x7b" <+: jsTrim body := by
  rcases list_head h with rfl | hss
  · exact ⟨rfl, by decide⟩
  have hinfix : js "ss://" <:+: jsTrim body := infix_jsTrim (by decide) (forall_mem_of_all (by decide)) hss.isInfix
  refine ⟨if_pos (Or.inr hinfix), fun hbrace => ?_⟩
  -- nothing is trimmed in front of the first unit
  obtain ⟨a, b, hbody, ha, -⟩ := jsTrim_split body
  obtain ⟨rest, hrest⟩ := hss
  obtain ⟨rest', hrest'⟩ := hbrace
  have hs : js "ss://" = unit 's' :: js "s://" := by decide
  have hb : js "\x7b" = [unit '\x7b'] := by decide
  rw [← hrest', ← hrest, hs, hb] at hbody
  cases a with
  | nil =>
    have hhead := (List.cons.inj hbody).1
    revert hhead
    decide
  | cons u a =>
    have hhead := (List.cons.inj hbody).1
    have hspace := ha u List.mem_cons_self
    rw [← hhead] at hspace
    revert hspace
    decide

/-! ## The document -/

/-- the profile that the element of the server gives: the one without a plugin -/
def Entry.documentProfile (e : Entry) : JsProfile := (e.server.profile none (some e.name)).toJs

theorem truthy_str {s : List Char} (h : s ≠ []) : (JsValue.str (utf16 s)).truthy = true := by
  simp [JsValue.truthy, utf16_ne_nil h]

theorem describedServer_eq {v : JsValue} {e : Entry} (h : DescribesEntry v e) :
    serverOk v = true ∧ describedServer v = some e.documentProfile := by
  obtain ⟨fields, rfl, hhost, hport, hmethod, hpassword, hremarks, -⟩ := h
  have hne : e.server.host.value ≠ [] := fun hc => e.server.host.value_ne (by rw [hc]; rfl)
  have hpos : (e.server.port : ℚ) ≠ 0 := by
    have := e.server.port_pos
    exact_mod_cast this.ne'
  have hportTrue : (JsValue.num (.finite e.server.port)).truthy = true := by
    simp only [JsValue.truthy, decide_eq_true_eq]
    exact hpos
  have hlength : JsValue.hasLength (some (.str (utf16 e.name))) = some true := by
    have hpositive := JsValue.lengthPositive_str (utf16 e.name)
    rw [decide_eq_true (utf16_ne_nil e.name_ne)] at hpositive
    simp only [JsValue.hasLength, if_pos (truthy_str e.name_ne), hpositive]
  have hname : (e.server.profile none (some e.name)).name = utf16 e.name := if_neg e.name_ne
  have hstr : ∀ {t : List Char}, t ≠ [] → (some (JsValue.str (utf16 t))).filter JsValue.truthy = some (.str (utf16 t)) := by
    intro t ht
    exact JsValue.filter_truthy (truthy_str ht)
  have hserver : describedServer (.obj fields) = some e.documentProfile := by
    simp only [describedServer, hhost, hport, hmethod, hpassword, hremarks, hstr hne, JsValue.filter_truthy hportTrue,
      hstr e.server.method_ne, hstr e.server.password_ne, hlength, Option.bind_eq_bind, Option.bind_some,
      Option.getD_some, if_true]
    unfold Entry.documentProfile Profile.toJs
    rw [hname]
    rfl
  refine ⟨?_, hserver⟩
  unfold serverOk
  simp only [hserver, hremarks, hlength, Option.isSome_some, Bool.or_true]

theorem textProfiles_served {body : JsString} {es : List Entry} (h : ServesDocument body es) :
    bodyText body = some (jsTrim body) ∧ textProfiles (jsTrim body) = some (es.map Entry.documentProfile) := by
  obtain ⟨fields, items, hparse, hservers, hitems⟩ := h
  have hbrace := JsonParse.jsonParse_obj hparse
  have hjson : jsonParse (jsTrim body) = some (.obj fields) := by
    rw [jsonParse_outer] at hparse
    split_ifs at hparse
    exact hparse
  have hall : items.all serverOk = true ∧ items.filterMap describedServer = es.map Entry.documentProfile := by
    clear hservers
    induction hitems with
    | nil => exact ⟨rfl, rfl⟩
    | cons hv _ ih =>
      obtain ⟨hok, hsome⟩ := describedServer_eq hv
      rw [List.all_cons, hok, List.filterMap_cons_some hsome, ih.2, List.map_cons]
      exact ⟨ih.1, rfl⟩
  have hprop : (JsValue.obj fields).prop (js "servers") = some (some (.arr items)) := congrArg some hservers
  refine ⟨if_pos (Or.inl hbrace), ?_⟩
  unfold textProfiles
  rw [jsTrim_jsTrim, if_pos hbrace, hjson]
  unfold documentOk described
  simp only [Option.all_some, Option.map_some, Option.getD_some, hprop, hall.1, hall.2, if_true]

/-! ## Main result -/

/-- both bodies are parsed, with the same names and the same configs for the core, in the same order -/
def SameServers (aclPath : JsString) (r r' : Option (List JsProfile)) : Prop :=
  ∃ ps ps', r = some ps ∧ r' = some ps' ∧ ps.map JsProfile.name = ps'.map JsProfile.name ∧
    ps.map (JsProfile.toTunConfig aclPath) = ps'.map (JsProfile.toTunConfig aclPath)

theorem parse_profiles (newId : ℕ → JsString) (subscriptionId : JsString) {body text : JsString} {qs : List JsProfile}
    (htext : bodyText body = some text) (hqs : textProfiles text = some qs) :
    ∃ ps, parseSubscriptionBody newId subscriptionId body = some ps ∧ ps.map JsProfile.name = qs.map JsProfile.name ∧
      ∀ aclPath, ps.map (JsProfile.toTunConfig aclPath) = qs.map (JsProfile.toTunConfig aclPath) := by
  have h := parse_text newId subscriptionId htext
  rw [hqs, Option.map_some, Option.map_eq_some_iff] at h
  obtain ⟨ps, hps, hmap⟩ := h
  exact ⟨ps, hps, map_unnumbered (fun _ _ => rfl) hmap, fun aclPath => map_unnumbered (fun _ _ => rfl) hmap⟩

/-- the configs of a server are the same exactly when it has no plugin -/
theorem toTunConfig_iff (aclPath : JsString) (e : Entry) :
    e.listProfile.toTunConfig aclPath = e.documentProfile.toTunConfig aclPath ↔ e.plugin = none := by
  constructor
  · intro h
    by_contra hsome
    obtain ⟨p, hp⟩ := Option.ne_none_iff_exists'.1 hsome
    have hne : utf16 p.plugin ≠ [] := utf16_ne_nil p.plugin_ne
    unfold Entry.listProfile Entry.documentProfile at h
    rw [hp] at h
    simp [JsProfile.toTunConfig, Profile.toJs, Server.profile, JsValue.lengthPositive_str, hne] at h
  · intro h
    unfold Entry.listProfile Entry.documentProfile
    rw [h]

/-- both bodies are parsed, the names are the same, and the configs are as the plugins are -/
theorem parse_both (newId newId' : ℕ → JsString) (subscriptionId aclPath : JsString) {es : List Entry}
    {list document : JsString} (hlist : ServesList list es) (hdocument : ServesDocument document es) :
    ∃ ps ps', parseSubscriptionBody newId subscriptionId list = some ps ∧
      parseSubscriptionBody newId' subscriptionId document = some ps' ∧
      ps.map JsProfile.name = ps'.map JsProfile.name ∧
      (ps.map (JsProfile.toTunConfig aclPath) = ps'.map (JsProfile.toTunConfig aclPath) ↔ ∀ e ∈ es, e.plugin = none) := by
  obtain ⟨htext, hbrace⟩ := bodyText_list hlist
  have hprofiles : textProfiles (jsTrim list) = some (es.map Entry.listProfile) := by
    unfold textProfiles
    rw [jsTrim_jsTrim, if_neg hbrace, listed_jsTrim, listed_list hlist]
  obtain ⟨ps, hps, hname, hconfig⟩ := parse_profiles newId subscriptionId htext hprofiles
  obtain ⟨htext', hprofiles'⟩ := textProfiles_served hdocument
  obtain ⟨ps', hps', hname', hconfig'⟩ := parse_profiles newId' subscriptionId htext' hprofiles'
  refine ⟨ps, ps', hps, hps', ?_, ?_⟩
  · rw [hname, hname', List.map_map, List.map_map]
    rfl
  · rw [hconfig, hconfig', List.map_map, List.map_map, List.map_inj_left]
    exact forall₂_congr fun e _ => toTunConfig_iff aclPath e

/-- **The two formats give the same servers to the core exactly when no server has a plugin.** -/
theorem formats_iff (draws draws' : ℕ → ℕ → Fin 16) (subscriptionId aclPath : JsString) {es : List Entry}
    {list document : JsString} (hlist : ServesList list es) (hdocument : ServesDocument document es) :
    SameServers aclPath (parseSubscriptionBody (fun n => newProfileId (draws n)) subscriptionId list)
      (parseSubscriptionBody (fun n => newProfileId (draws' n)) subscriptionId document) ↔ ∀ e ∈ es, e.plugin = none := by
  obtain ⟨ps, ps', hps, hps', hnames, hconfigs⟩ := parse_both (fun n => newProfileId (draws n))
    (fun n => newProfileId (draws' n)) subscriptionId aclPath hlist hdocument
  rw [← hconfigs]
  constructor
  · rintro ⟨qs, qs', hqs, hqs', -, hsame⟩
    rw [hps] at hqs
    rw [hps'] at hqs'
    cases hqs
    cases hqs'
    exact hsame
  · intro hsame
    exact ⟨ps, ps', hps, hps', hnames, hsame⟩

/-! ## The bodies of given servers -/

/-- the URLs, line by line -/
def listText (f : Base64Form) : List Entry → JsString
  | [] => []
  | e :: es => e.url f false ++ js "\n" ++ listText f es

theorem servesList_text (f : Base64Form) (es : List Entry) : ServesList (listText f es) es := by
  induction es with
  | nil => exact ServesList.nil
  | cons e es ih => exact ServesList.cons e f false (Or.inl rfl) ih

def pluginFields : Option PluginQuery → List (JsString × JsValue)
  | some p => [(js "plugin", .str (utf16 p.plugin)), (js "plugin_opts", .str (utf16 p.opts))]
  | none => []

def Entry.fields (e : Entry) : List (JsString × JsValue) :=
  [(js "server", .str (utf16 e.server.host.value)), (js "server_port", .num (.finite e.server.port)),
    (js "method", .str (utf16 e.server.method)), (js "password", .str (utf16 e.server.password)),
    (js "remarks", .str (utf16 e.name))] ++ pluginFields e.plugin

def documentText (es : List Entry) : JsString :=
  JsonPrint.print (.obj [(js "servers", .arr (es.map fun e => .obj e.fields))])

theorem describesEntry_fields (e : Entry) : DescribesEntry (.obj e.fields) e := by
  refine ⟨e.fields, rfl, rfl, rfl, rfl, rfl, rfl, fun p hp => ?_⟩
  unfold Entry.fields
  rw [hp]
  exact ⟨rfl, rfl⟩

theorem plain_fields (e : Entry) : JsonPrint.Plain (.obj e.fields) := by
  have hport : Binary64.IsDouble (e.server.port : ℚ) := by
    have := e.server.port_le
    exact Binary64.isDouble_int (n := e.server.port) (by rw [Int.natAbs_natCast]; omega)
  have hkeys : (e.fields.map Prod.fst).Nodup := by
    unfold Entry.fields
    cases e.plugin with
    | none =>
      show [js "server", js "server_port", js "method", js "password", js "remarks"].Nodup
      decide
    | some p =>
      show [js "server", js "server_port", js "method", js "password", js "remarks", js "plugin", js "plugin_opts"].Nodup
      decide
  refine ⟨hkeys, ?_⟩
  unfold Entry.fields
  cases e.plugin with
  | none => exact ⟨trivial, hport, trivial, trivial, trivial, trivial⟩
  | some p => exact ⟨trivial, hport, trivial, trivial, trivial, trivial, trivial, trivial⟩

theorem servesDocument_text (es : List Entry) : ServesDocument (documentText es) es := by
  have hitems : JsonPrint.PlainItems (es.map fun e => .obj e.fields) := by
    induction es with
    | nil => trivial
    | cons e es ih => exact ⟨plain_fields e, ih⟩
  have hplain : JsonPrint.Plain (.obj [(js "servers", .arr (es.map fun e => .obj e.fields))]) :=
    ⟨List.nodup_singleton _, hitems, trivial⟩
  refine ⟨_, _, JsonPrint.jsonParse_print hplain, rfl, ?_⟩
  rw [List.forall₂_map_left_iff]
  exact List.forall₂_same.2 fun e _ => describesEntry_fields e

/-- a server without a plugin -/
def testEntry : Entry where
  server := testServer
  name := "näme, 1".toList
  plugin := none
  name_ne := by decide
  host_name := ⟨_, _, _, rfl, by decide⟩

theorem formats_iff_plain :
    SameServers []
      (parseSubscriptionBody (fun _ => newProfileId fun _ => 0) [] (listText ⟨true, false⟩ [testEntry, testEntry]))
      (parseSubscriptionBody (fun _ => newProfileId fun _ => 1) [] (documentText [testEntry, testEntry])) :=
  (formats_iff _ _ [] [] (servesList_text ⟨true, false⟩ _) (servesDocument_text _)).2 (by decide)

/-- the same server with a plugin -/
def pluginEntry : Entry :=
  { testEntry with plugin := some ⟨"obfs-local".toList, "obfs=tls".toList, by decide, by decide⟩ }

/-- **The document drops the plugin.** -/
theorem dropped : ¬ ∀ (draws draws' : ℕ → ℕ → Fin 16) (subscriptionId aclPath : JsString) (es : List Entry)
    (list document : JsString), ServesList list es → ServesDocument document es →
    SameServers aclPath (parseSubscriptionBody (fun n => newProfileId (draws n)) subscriptionId list)
      (parseSubscriptionBody (fun n => newProfileId (draws' n)) subscriptionId document) := by
  intro h
  have hsame := h (fun _ _ => 0) (fun _ _ => 0) [] [] [pluginEntry] _ _ (servesList_text ⟨true, false⟩ _)
    (servesDocument_text _)
  obtain ⟨ps, ps', hps, hps', -, hconfigs⟩ := parse_both (fun _ => newProfileId fun _ => 0)
    (fun _ => newProfileId fun _ => 0) [] [] (servesList_text ⟨true, false⟩ [pluginEntry]) (servesDocument_text [pluginEntry])
  obtain ⟨qs, qs', hqs, hqs', -, hsame⟩ := hsame
  rw [hps] at hqs
  rw [hps'] at hqs'
  cases hqs
  cases hqs'
  have hnone := hconfigs.1 hsame pluginEntry List.mem_cons_self
  cases hnone

end SubscriptionBody

end ShadowsocksOhos
