/-
`parseUrl` inverts both forms of an `ss://` URL. The delimiters of the URL (`#`, `?`, `@`, `:`) are searched for one after
another, each in a part where the text before (or after) it cannot contain it: the base64 text and the escaped texts by
their alphabets (`quiet`), the host by what a host may be (`Host`), the port by its digits.

- `parse_forms`: the SIP002 text and the legacy text of a server give the same profile, up to the plugin, which only the
SIP002 text has.
-/
import ShadowsocksOhos.App.Base64Decode
import ShadowsocksOhos.App.PercentDecode

namespace ShadowsocksOhos

/-! ## Servers and their URLs -/

/-- a host as it is written: a name or IPv4 address, or an IPv6 literal in brackets -/
inductive Host where
  | name (s : List Char) (ne : s ≠ []) (ok : ∀ c ∈ s, c ∉ ['@', ':', '[', ']', '#', '?'])
  | literal (s : List Char) (ne : s ≠ []) (ok : ∀ c ∈ s, c ∉ ['@', '[', ']', '#', '?'])

def Host.text : Host → List Char
  | .name s _ _ => s
  | .literal s _ _ => '[' :: s ++ [']']

/-- the host that a profile gets, without brackets -/
def Host.value : Host → List Char
  | .name s _ _ => s
  | .literal s _ _ => s

structure Server where
  method : List Char
  password : List Char
  host : Host
  port : ℕ
  method_ne : method ≠ []
  no_colon : ':' ∉ method
  password_ne : password ≠ []
  port_pos : 0 < port
  port_le : port ≤ 65535

/-- a plugin and its options -/
structure PluginQuery where
  plugin : List Char
  opts : List Char
  plugin_ne : plugin ≠ []
  no_semicolon : ';' ∉ plugin

def userInfoText (s : Server) : List Char := s.method ++ ':' :: s.password

def hostPortText (s : Server) : List Char := s.host.text ++ ':' :: Nat.toDigits 10 s.port

/-- `#enc(name)`, if it is there -/
def fragmentText : Option (List Char) → JsString
  | some name => unit '#' :: encodeURIComponent name
  | none => []

/-- `?plugin=enc(plugin;opts)`, if it is there -/
def queryText : Option PluginQuery → JsString
  | some p => unit '?' :: js "plugin=" ++ encodeURIComponent (p.plugin ++ ';' :: p.opts)
  | none => []

def slashText (slash : Bool) : JsString := if slash then [unit '/'] else []

/-- `ss://base64(method:password)@host:port[/][?plugin=enc(plugin;opts)][#enc(name)]` -/
def sip002Url (f : Base64Form) (s : Server) (slash : Bool) (plugin : Option PluginQuery) (name : Option (List Char)) :
    JsString :=
  js "ss://" ++ ((f.encode (utf8 (userInfoText s)) ++ unit '@' :: (utf16 (hostPortText s) ++ slashText slash)) ++
    queryText plugin ++ fragmentText name)

/-- `ss://base64(method:password@host:port)[#enc(name)]` -/
def legacyUrl (f : Base64Form) (s : Server) (name : Option (List Char)) : JsString :=
  js "ss://" ++ (f.encode (utf8 (userInfoText s ++ '@' :: hostPortText s)) ++ fragmentText name)

/-- the profile of a server: its name is the host when none is given -/
def Server.profile (s : Server) (plugin : Option PluginQuery) (name : Option (List Char)) : Profile where
  name := if name.getD [] = [] then utf16 s.host.value else utf16 (name.getD [])
  host := utf16 s.host.value
  remotePort := s.port
  method := utf16 s.method
  password := utf16 s.password
  plugin := match plugin with
    | some p => utf16 p.plugin
    | none => []
  pluginOpts := match plugin with
    | some p => utf16 p.opts
    | none => []

/-! ## Alphabets -/

/-- neither white space nor a delimiter -/
def quiet (u : UInt16) : Bool := !isJsSpace u && u ≠ unit '#' && u ≠ unit '?' && u ≠ unit '@' && u ≠ unit '&'

theorem quiet_base64 (f : Base64Form) (bytes : List UInt8) : ∀ u ∈ f.encode bytes, quiet u = true := by
  intro u hu
  have hdec : ∀ b : Bool, ∀ v < 64, quiet (unit (if b then Base64.urlSafe v else Base64.standard v)) = true := by decide
  rcases Base64.mem_encode hu with ⟨v, hv, rfl⟩ | hpad
  · exact hdec f.urlSafe v hv
  · have hu : u = unit '=' := by
      split_ifs at hpad
      exact (Option.some.inj hpad).symm
    rw [hu]
    decide

theorem quiet_escapeByte {b : ℕ} (hb : b < 256) : ∀ u ∈ escapeByte b, quiet u = true := by
  have hdec : ∀ n < 16, quiet (hexDigit n) = true := by decide
  simp only [escapeByte, List.mem_cons, List.not_mem_nil, or_false]
  rintro u (rfl | rfl | rfl)
  · decide
  · exact hdec _ (by omega)
  · exact hdec _ (by omega)

theorem quiet_unescaped {c : Char} (h : uriUnescaped c = true) : quiet (unit c) = true := by
  have hdec : ∀ n < 0x80, uriUnescaped (Char.ofNat n) = true → quiet (unit (Char.ofNat n)) = true := by decide
  have hc := hdec c.toNat (unescaped_unit h).1
  rw [Char.ofNat_toNat] at hc
  exact hc h

theorem quiet_encodeURI (s : List Char) : ∀ u ∈ encodeURIComponent s, quiet u = true := by
  intro u hu
  obtain ⟨c, -, hu⟩ := List.mem_flatMap.1 hu
  split_ifs at hu with hc
  · rw [List.mem_singleton.1 hu]
    exact quiet_unescaped hc
  · obtain ⟨b, hb, hu⟩ := List.mem_flatMap.1 hu
    exact quiet_escapeByte (encodePoint_lt (char_toNat_lt c) b hb) u hu

theorem quiet_notMem {s : JsString} (h : ∀ u ∈ s, quiet u = true) {c : Char} (hc : quiet (unit c) = false) :
    unit c ∉ s := by
  intro hm
  rw [h _ hm] at hc
  cases hc

theorem quiet_not_space {u : UInt16} (h : quiet u = true) : isJsSpace u = false := by
  simp only [quiet, Bool.and_eq_true, Bool.not_eq_true'] at h
  exact h.1.1.1.1

theorem isDigit_quiet {u : UInt16} (h : isDigit u = true) : quiet u = true := by
  have hdec : ∀ n < 10, quiet (UInt16.ofNat (n + 0x30)) = true := by decide
  have hb := isDigit_bounds h
  have hu := hdec (u.toNat - 0x30) (by omega)
  rwa [Nat.sub_add_cancel hb.1, UInt16.ofNat_toNat] at hu

/-! ## The ends of a URL -/

/-- the last unit is no white space -/
def EndsQuiet (s : JsString) : Prop := ∃ t u, s = t ++ [u] ∧ isJsSpace u = false

theorem endsQuiet_of_quiet {s : JsString} (hs : s ≠ []) (h : ∀ u ∈ s, quiet u = true) : EndsQuiet s := by
  refine ⟨s.dropLast, s.getLast hs, (List.dropLast_append_getLast hs).symm, ?_⟩
  exact quiet_not_space (h _ (List.getLast_mem hs))

theorem EndsQuiet.prepend {t : JsString} (h : EndsQuiet t) (s : JsString) : EndsQuiet (s ++ t) := by
  obtain ⟨t', u, rfl, hu⟩ := h
  exact ⟨s ++ t', u, (List.append_assoc _ _ _).symm, hu⟩

/-- what may follow, as long as it is not empty, decides -/
theorem EndsQuiet.append {s t : JsString} (hs : EndsQuiet s) (ht : t ≠ [] → EndsQuiet t) : EndsQuiet (s ++ t) := by
  by_cases h : t = []
  · rwa [h, List.append_nil]
  · exact (ht h).prepend s

/-- nothing is trimmed off a URL -/
theorem jsTrim_url {s : JsString} (h : EndsQuiet s) : jsTrim (js "ss://" ++ s) = js "ss://" ++ s := by
  obtain ⟨t, u, rfl, hu⟩ := h
  have hss : js "ss://" = unit 's' :: js "s://" := by decide
  rw [hss, List.cons_append, ← List.append_assoc, ← List.cons_append]
  exact jsTrim_eq (by decide) hu

theorem EndsQuiet.append_quiet {s t : JsString} (hs : EndsQuiet s) (ht : ∀ u ∈ t, quiet u = true) : EndsQuiet (s ++ t) :=
  hs.append fun hne => endsQuiet_of_quiet hne ht

theorem endsQuiet_query (plugin : Option PluginQuery) (h : queryText plugin ≠ []) : EndsQuiet (queryText plugin) := by
  cases plugin with
  | none => exact absurd rfl h
  | some p =>
    have hhead : EndsQuiet (unit '?' :: js "plugin=") := ⟨unit '?' :: js "plugin", unit '=', by decide, by decide⟩
    exact hhead.append_quiet (quiet_encodeURI _)

theorem endsQuiet_fragment (name : Option (List Char)) (h : fragmentText name ≠ []) : EndsQuiet (fragmentText name) := by
  cases name with
  | none => exact absurd rfl h
  | some n =>
    have hhead : EndsQuiet [unit '#'] := ⟨[], unit '#', rfl, by decide⟩
    exact hhead.append_quiet (quiet_encodeURI n)

/-! ## Digits and hosts -/

theorem utf16_cons_basic {c : Char} (h : c.toNat ≤ 0xffff) (s : List Char) : utf16 (c :: s) = unit c :: utf16 s := by
  rw [utf16_cons]
  unfold codeUnits
  rw [if_pos h]
  rfl

theorem Host.value_ne (h : Host) : utf16 h.value ≠ [] := by
  cases h with
  | name s ne ok => exact utf16_ne_nil ne
  | literal s ne ok => exact utf16_ne_nil ne

/-- no delimiter of the parts around the host stands in it -/
theorem Host.notMem_text (h : Host) {c : Char} (hc : c ∈ ['@', '#', '?']) : unit c ∉ utf16 h.text := by
  have hlt : ∀ d ∈ ['@', '#', '?'], d.toNat < 0xd800 ∧ d ∈ ['@', ':', '[', ']', '#', '?'] ∧
      d ∈ ['@', '[', ']', '#', '?'] ∧ d ≠ '[' ∧ d ≠ ']' := forall_mem_of_all (by decide)
  obtain ⟨h1, h2, h3, h4, h5⟩ := hlt c hc
  rw [mem_utf16 h1]
  intro hm
  cases h with
  | name s ne ok => exact ok c hm h2
  | literal s ne ok =>
    rcases List.mem_append.1 hm with hs | hs
    · rcases List.mem_cons.1 hs with rfl | hs
      · exact h4 rfl
      · exact ok c hs h3
    · exact h5 (List.mem_singleton.1 hs)

/-- the brackets of a literal go, and there are no others -/
theorem stripBrackets_text (h : Host) : stripBrackets (utf16 h.text) = utf16 h.value := by
  have hopen : ('[' : Char).toNat < 0xd800 := by decide
  have hclose : (']' : Char).toNat < 0xd800 := by decide
  cases h with
  | name s ne ok =>
    have h1 : unit '[' ∉ utf16 s := by
      rw [mem_utf16 hopen]
      exact fun hm => ok _ hm (by decide)
    have h2 : unit ']' ∉ utf16 s := by
      rw [mem_utf16 hclose]
      exact fun hm => ok _ hm (by decide)
    unfold stripBrackets Host.text Host.value
    rw [List.erase_of_not_mem h1, List.erase_of_not_mem h2]
  | literal s ne ok =>
    have h2 : unit ']' ∉ utf16 s := by
      rw [mem_utf16 hclose]
      exact fun hm => ok _ hm (by decide)
    have htext : utf16 ('[' :: s ++ [']']) = unit '[' :: (utf16 s ++ [unit ']']) := by
      rw [List.cons_append, utf16_cons_basic (by decide), utf16_append]
      rfl
    unfold stripBrackets Host.text Host.value
    rw [htext, List.erase_cons_head, List.erase_append_right _ h2, List.erase_cons_head, List.append_nil]

/-! ## The parts of a URL -/

theorem splitFragment_eq {pre : JsString} (h : unit '#' ∉ pre) (name : Option (List Char)) :
    splitFragment (pre ++ fragmentText name) = (utf16 (name.getD []), pre) := by
  unfold splitFragment fragmentText
  cases name with
  | none => rw [List.append_nil, indexOf_none h]; rfl
  | some n =>
    simp only [indexOf_append h, take_append_cons, drop_append_cons, percentDecode_encode, Option.getD_some]

theorem splitQuery_none {pre : JsString} (h : unit '?' ∉ pre) : splitQuery pre = (([], []), pre) := by
  unfold splitQuery
  rw [indexOf_none h]

/-- the one parameter of the query -/
theorem queryParam_plugin (p : PluginQuery) :
    queryParam ([], []) (js "plugin=" ++ encodeURIComponent (p.plugin ++ ';' :: p.opts)) =
      (utf16 p.plugin, utf16 p.opts) := by
  have hkey : js "plugin=" = js "plugin" ++ [unit '='] := by decide
  have heq : unit '=' ∉ js "plugin" := by decide
  have hsemi : unit ';' ∉ utf16 p.plugin := by
    rw [mem_utf16 (by decide)]
    exact p.no_semicolon
  have hdecoded : percentDecode (encodeURIComponent (p.plugin ++ ';' :: p.opts)) =
      utf16 p.plugin ++ unit ';' :: utf16 p.opts := by
    rw [percentDecode_encode, utf16_append, utf16_cons_basic (by decide)]
  unfold queryParam
  rw [hkey, List.append_assoc, List.singleton_append, indexOf_append heq]
  simp only [take_append_cons, drop_append_cons, hdecoded, indexOf_append hsemi]
  rw [if_pos ⟨by decide, trivial⟩]

theorem splitQuery_some {pre : JsString} (h : unit '?' ∉ pre) (p : PluginQuery) :
    splitQuery (pre ++ queryText (some p)) = ((utf16 p.plugin, utf16 p.opts), pre) := by
  have hamp : unit '&' ∉ js "plugin=" ++ encodeURIComponent (p.plugin ++ ';' :: p.opts) := by
    rw [List.mem_append, not_or]
    exact ⟨by decide, quiet_notMem (quiet_encodeURI _) (by decide)⟩
  have hquery : queryText (some p) = unit '?' :: (js "plugin=" ++ encodeURIComponent (p.plugin ++ ';' :: p.opts)) := rfl
  unfold splitQuery
  rw [hquery]
  simp only [indexOf_append h, take_append_cons, drop_append_cons, List.splitOn_eq_singleton hamp, List.foldl_cons,
    List.foldl_nil, queryParam_plugin]

theorem splitUserInfo_eq (s : Server) : splitUserInfo (utf16 (userInfoText s)) = some (utf16 s.method, utf16 s.password) := by
  have hcolon : unit ':' ∉ utf16 s.method := by
    rw [mem_utf16 (by decide)]
    exact s.no_colon
  unfold splitUserInfo userInfoText
  rw [utf16_append, utf16_cons_basic (by decide)]
  simp only [indexOf_append hcolon, take_append_cons, drop_append_cons]

theorem splitHostPort_eq (s : Server) (slash : Bool) :
    splitHostPort (utf16 (hostPortText s) ++ slashText slash) = some (utf16 s.host.value, (s.port : ℤ)) := by
  have hslash : ∀ u ∈ slashText slash, u = unit '/' := by cases slash <;> simp [slashText]
  have hcolon : unit ':' ∉ utf16 (Nat.toDigits 10 s.port) ++ slashText slash := by
    rw [List.mem_append, not_or]
    refine ⟨fun hm => ?_, fun hm => ?_⟩
    · have := isDigit_toDigits s.port _ hm
      revert this
      decide
    · have := hslash _ hm
      revert this
      decide
  have hhead : ∀ u ∈ (slashText slash).head?, isDigit u = false := by
    intro u hu
    rw [hslash u (List.mem_of_mem_head? hu)]
    decide
  have hpos := s.port_pos
  have hle := s.port_le
  unfold splitHostPort hostPortText
  rw [utf16_append, utf16_cons_basic (by decide), List.append_assoc, List.cons_append]
  simp only [lastIndexOf_append hcolon, take_append_cons, drop_append_cons, parseInt_toDigits s.port hhead,
    stripBrackets_text]
  rw [if_neg]
  rintro (h | h | h)
  · exact s.host.value_ne h
  · omega
  · omega

/-! ## What every URL gives -/

/-- the profile of a URL has no id yet, and can be dialled -/
structure Dialable (p : Profile) : Prop where
  host : p.host ≠ []
  method : p.method ≠ []
  password : p.password ≠ []
  port : ∃ port : ℤ, p.remotePort = port ∧ 1 ≤ port ∧ port ≤ 65535

theorem splitHostPort_bounds {hostPort host : JsString} {port : ℤ} (h : splitHostPort hostPort = some (host, port)) :
    host ≠ [] ∧ 1 ≤ port ∧ port ≤ 65535 := by
  unfold splitHostPort at h
  split at h
  · simp only at h
    split at h
    · split_ifs at h with hbad
      cases h
      simp only [not_or, not_le, not_lt] at hbad
      exact ⟨hbad.1, hbad.2.1, hbad.2.2⟩
    · cases h
  · cases h

theorem parseUrl_some {url : JsString} {p : Profile} (h : parseUrl url = some p) :
    p.id = [] ∧ p.subscriptionId = [] ∧ Dialable p := by
  simp only [parseUrl] at h
  split at h
  · cases h
  split at h
  · cases h
  split at h
  · cases h
  split at h
  · cases h
  · rename_i host port hhost
    obtain ⟨hne, hpos, hle⟩ := splitHostPort_bounds hhost
    split at h
    · cases h
    rename_i hempty
    cases h
    rw [not_or] at hempty
    exact ⟨rfl, rfl, hne, hempty.1, hempty.2, port, rfl, hpos, hle⟩

/-- white space around a URL does not matter -/
theorem parseUrl_jsTrim (url : JsString) : parseUrl (jsTrim url) = parseUrl url := by
  unfold parseUrl
  rw [jsTrim_jsTrim]

theorem parseUrl_blank {url : JsString} (h : jsTrim url = []) : parseUrl url = none := by
  unfold parseUrl
  rw [h]
  exact if_pos (by decide)

/-! ## Both forms -/

/-- what is left of `parseUrl` once the user info and the host with the port have been found -/
theorem parseUrl_eq {body : JsString} {name : JsString} {plugins : JsString × JsString} {rest : JsString} (s : Server)
    {slash : Bool} (hbody : EndsQuiet body) (hname : splitFragment body = (name, rest)) {creds : JsString}
    (hquery : splitQuery rest = (plugins, creds))
    (hcreds : credentials creds = some (utf16 (userInfoText s), utf16 (hostPortText s) ++ slashText slash)) :
    parseUrl (js "ss://" ++ body) = some {
      name := if name ≠ [] then name else utf16 s.host.value
      host := utf16 s.host.value
      remotePort := (s.port : ℤ)
      method := utf16 s.method
      password := utf16 s.password
      plugin := plugins.1
      pluginOpts := plugins.2 } := by
  have hdrop : (js "ss://" ++ body).drop 5 = body := List.drop_left' (by decide)
  unfold parseUrl
  simp only [jsTrim_url hbody, hdrop, hname, hquery, hcreds, splitUserInfo_eq, splitHostPort_eq]
  rw [if_neg (not_not.2 (List.prefix_append _ _)), if_neg]
  rintro (h | h)
  · exact utf16_ne_nil s.method_ne h
  · exact utf16_ne_nil s.password_ne h

/-- host and port contain no delimiter of what is around them -/
theorem notMem_hostPort (s : Server) (slash : Bool) {c : Char} (hc : c ∈ ['@', '#', '?']) :
    unit c ∉ utf16 (hostPortText s) ++ slashText slash := by
  have hdec : ∀ d ∈ ['@', '#', '?'], quiet (unit d) = false ∧ unit d ≠ unit ':' ∧ unit d ≠ unit '/' :=
    forall_mem_of_all (by decide)
  obtain ⟨hq, hcolon, hslash⟩ := hdec c hc
  have hdigits : unit c ∉ utf16 (Nat.toDigits 10 s.port) :=
    quiet_notMem (fun u hu => isDigit_quiet (isDigit_toDigits s.port u hu)) hq
  have hs : unit c ∉ slashText slash := by
    cases slash with
    | false => exact List.not_mem_nil
    | true => exact fun hm => hslash (List.mem_singleton.1 hm)
  unfold hostPortText
  rw [utf16_append, utf16_cons_basic (by decide)]
  simp only [List.mem_append, List.mem_cons, not_or]
  exact ⟨⟨s.host.notMem_text hc, hcolon, hdigits⟩, hs⟩

theorem notMem_query (plugin : Option PluginQuery) : unit '#' ∉ queryText plugin := by
  cases plugin with
  | none => exact List.not_mem_nil
  | some p =>
    have hhead : unit '#' ∉ unit '?' :: js "plugin=" := by decide
    intro hm
    rcases List.mem_append.1 hm with h | h
    · exact hhead h
    · exact quiet_notMem (quiet_encodeURI _) (by decide) h

theorem utf8_ne_nil {s : List Char} (h : s ≠ []) : utf8 s ≠ [] := by
  cases s with
  | nil => exact absurd rfl h
  | cons c s => exact List.append_ne_nil_of_left_ne_nil String.utf8EncodeChar_ne_nil _

theorem encode_ne_nil (f : Base64Form) {s : List Char} (h : s ≠ []) : f.encode (utf8 s) ≠ [] := by
  apply List.append_ne_nil_of_left_ne_nil
  rw [Ne, List.map_eq_nil_iff]
  exact Base64.sextets_ne_nil (utf8_ne_nil h)

theorem profile_name (s : Server) (name : Option (List Char)) :
    (if utf16 (name.getD []) ≠ [] then utf16 (name.getD []) else utf16 s.host.value) =
      if name.getD [] = [] then utf16 s.host.value else utf16 (name.getD []) := by
  by_cases h : name.getD [] = []
  · rw [if_pos h, h, utf16_nil, if_neg (not_not.2 rfl)]
  · rw [if_neg h, if_pos (utf16_ne_nil h)]

/-- **The SIP002 form is read back.** -/
theorem parse_sip002 (f : Base64Form) (s : Server) (slash : Bool) (plugin : Option PluginQuery)
    (name : Option (List Char)) : parseUrl (sip002Url f s slash plugin name) = some (s.profile plugin name) := by
  have henc := quiet_base64 f (utf8 (userInfoText s))
  have hauth : ∀ c ∈ ['#', '?'],
      unit c ∉ f.encode (utf8 (userInfoText s)) ++ unit '@' :: (utf16 (hostPortText s) ++ slashText slash) := by
    intro c hc
    have hdec : ∀ d ∈ ['#', '?'], quiet (unit d) = false ∧ unit d ≠ unit '@' ∧ d ∈ ['@', '#', '?'] :=
      forall_mem_of_all (by decide)
    obtain ⟨hq, hat, hmem⟩ := hdec c hc
    rw [List.mem_append, List.mem_cons, not_or, not_or]
    exact ⟨quiet_notMem henc hq, hat, notMem_hostPort s slash hmem⟩
  have hends : EndsQuiet (f.encode (utf8 (userInfoText s)) ++ unit '@' :: (utf16 (hostPortText s) ++ slashText slash)) := by
    have hport : EndsQuiet (utf16 (Nat.toDigits 10 s.port)) :=
      endsQuiet_of_quiet (utf16_ne_nil Nat.toDigits_ne_nil) fun u hu => isDigit_quiet (isDigit_toDigits s.port u hu)
    have hslash : ∀ u ∈ slashText slash, quiet u = true := by
      cases slash with
      | false => exact nofun
      | true => exact forall_mem_of_all (by decide)
    have hhp : EndsQuiet (utf16 (hostPortText s) ++ slashText slash) := by
      unfold hostPortText
      rw [utf16_append, utf16_cons_basic (by decide)]
      exact ((hport.prepend [unit ':']).prepend _).append_quiet hslash
    exact (hhp.prepend [unit '@']).prepend _
  have hfrag := fun h => not_or.2 ⟨hauth '#' (by decide), notMem_query plugin⟩ (List.mem_append.1 h)
  have hquery : splitQuery ((f.encode (utf8 (userInfoText s)) ++
      unit '@' :: (utf16 (hostPortText s) ++ slashText slash)) ++ queryText plugin) =
        (((s.profile plugin name).plugin, (s.profile plugin name).pluginOpts),
          f.encode (utf8 (userInfoText s)) ++ unit '@' :: (utf16 (hostPortText s) ++ slashText slash)) := by
    cases plugin with
    | none => rw [queryText, List.append_nil, splitQuery_none (hauth '?' (by decide))]; rfl
    | some p => exact splitQuery_some (hauth '?' (by decide)) p
  have hcreds : credentials (f.encode (utf8 (userInfoText s)) ++
      unit '@' :: (utf16 (hostPortText s) ++ slashText slash)) =
        some (utf16 (userInfoText s), utf16 (hostPortText s) ++ slashText slash) := by
    unfold credentials
    rw [lastIndexOf_append (notMem_hostPort s slash (by decide))]
    simp only [take_append_cons, drop_append_cons, decodeBase64_encode, Option.map_some]
  unfold sip002Url
  rw [parseUrl_eq s ((hends.append (endsQuiet_query plugin)).append (endsQuiet_fragment name))
    (splitFragment_eq hfrag name) hquery hcreds, profile_name]
  rfl

/-- **The legacy form is read back.** -/
theorem parse_legacy (f : Base64Form) (s : Server) (name : Option (List Char)) :
    parseUrl (legacyUrl f s name) = some (s.profile none name) := by
  have henc := quiet_base64 f (utf8 (userInfoText s ++ '@' :: hostPortText s))
  have hne : f.encode (utf8 (userInfoText s ++ '@' :: hostPortText s)) ≠ [] :=
    encode_ne_nil f (List.append_ne_nil_of_right_ne_nil _ (List.cons_ne_nil _ _))
  have hcreds : credentials (f.encode (utf8 (userInfoText s ++ '@' :: hostPortText s))) =
      some (utf16 (userInfoText s), utf16 (hostPortText s) ++ slashText false) := by
    have hdecoded : utf16 (userInfoText s ++ '@' :: hostPortText s) =
        utf16 (userInfoText s) ++ unit '@' :: (utf16 (hostPortText s) ++ slashText false) := by
      rw [utf16_append, utf16_cons_basic (by decide)]
      simp [slashText]
    have hat : unit '@' ∉ utf16 (hostPortText s) ++ slashText false := notMem_hostPort s false (by decide)
    unfold credentials
    rw [lastIndexOf_none (quiet_notMem henc (by decide))]
    simp only [decodeBase64_encode, Option.bind_some, hdecoded, lastIndexOf_append hat, Option.map_some,
      take_append_cons, drop_append_cons]
  unfold legacyUrl
  rw [parseUrl_eq s ((endsQuiet_of_quiet hne henc).append (endsQuiet_fragment name))
    (splitFragment_eq (quiet_notMem henc (by decide)) name) (splitQuery_none (quiet_notMem henc (by decide))) hcreds,
    profile_name]
  rfl

/-- **Both forms of a URL are read back**, and they agree: the SIP002 text and the legacy text of a server give the
profile of that server, with the plugin that the SIP002 text has. -/
theorem parse_forms (f g : Base64Form) (s : Server) (slash : Bool) (plugin : Option PluginQuery)
    (name : Option (List Char)) :
    parseUrl (sip002Url f s slash plugin name) = some (s.profile plugin name) ∧
      parseUrl (legacyUrl g s name) = some (s.profile none name) :=
  ⟨parse_sip002 f s slash plugin name, parse_legacy g s name⟩

/-- the server of the repository's own test -/
def testServer : Server where
  method := "aes-256-gcm".toList
  password := "test-password".toList
  host := .name "example.com".toList (by decide) (forall_mem_of_all (by decide))
  port := 8388
  method_ne := by decide
  no_colon := by decide
  password_ne := by decide
  port_pos := by decide
  port_le := by decide

theorem parse_forms_test :
    sip002Url ⟨false, false⟩ testServer false none (some "My Server".toList) =
        js "ss://YWVzLTI1Ni1nY206dGVzdC1wYXNzd29yZA@example.com:8388#My%20Server" ∧
      parseUrl (sip002Url ⟨false, false⟩ testServer false none (some "My Server".toList)) =
        some (testServer.profile none (some "My Server".toList)) :=
  ⟨by decide +kernel, (parse_forms ⟨false, false⟩ ⟨false, false⟩ testServer false none (some "My Server".toList)).1⟩

end ShadowsocksOhos
