/-
The fields of a profile in the editor, one by one. A field of the form that has not been touched gives the field of the
profile back (`Shows`), apart from white space at the ends, from a blank name, which becomes the host, and from a plugin
with the name that stands for none.

- `load_shows`: the form that is loaded shows every field.
- `shows_apply`: a change of the form leaves the other fields alone.
- `save_carried`: what the form shows is saved.
-/
import ShadowsocksOhos.App.EditPage

namespace ShadowsocksOhos

open ProfileFile (strictEq)

namespace JsProfileEdit

/-! ## Fields -/

/-- white space at the ends may be gone -/
def Trimmed (old new : JsValue) : Prop := new = old ∨
  ∃ a s b, old = .str (a ++ s ++ b) ∧ new = .str s ∧ (∀ u ∈ a, isJsSpace u = true) ∧ ∀ u ∈ b, isJsSpace u = true

def mayTrim : ProfileField → Bool
  | .name | .host | .method | .pluginOpts => true
  | _ => false

/-- the field is as it was, white space at the ends of some apart -/
def Same (p q : JsProfile) (k : ProfileField) : Prop :=
  if mayTrim k then Trimmed (p.get k) (q.get k) else q.get k = p.get k

def Blank (v : JsValue) : Prop := ∃ s, v = .str s ∧ jsTrim s = []

theorem blank_str {s : JsString} : Blank (.str s) ↔ jsTrim s = [] := by
  constructor
  · rintro ⟨t, ht, hblank⟩
    cases ht
    exact hblank
  · intro hblank
    exact ⟨s, rfl, hblank⟩

/-- the field is as it was, but a blank name becomes the host, and a plugin with the name that stands for none is dropped -/
def Carried (p q : JsProfile) : ProfileField → Prop
  | .name => (Blank p.name → q.name = q.host) ∧ (¬ Blank p.name → Same p q .name)
  | .plugin => (p.plugin = .str (js "none") → q.plugin = .str []) ∧ (p.plugin ≠ .str (js "none") → Same p q .plugin)
  | k => Same p q k

/-- what the form would save for the field comes from the profile -/
def Shows (p : JsProfile) (f : JsProfileEdit) : ProfileField → Prop
  | .id => p.id = .str f.profileId ∧ f.profileId ≠ []
  | .name => f.name = p.name
  | .host => f.host = p.host
  | .remotePort => p.remotePort = .num (portValue f.remotePort)
  | .password => f.password = p.password
  | .method => ∀ method, f.selectedMethod = some method → Trimmed p.method (.str method)
  | .route => p.route = .str ((ALL_ROUTES[f.routeIndex]?).getD ROUTE_ALL)
  | .subscriptionId | .localAddress | .localPort => f.editedProfile = some p
  | .plugin => (p.plugin = .str (js "none") → f.plugin = .str []) ∧ (p.plugin ≠ .str (js "none") → f.plugin = p.plugin)
  | .pluginOpts => f.pluginOpts = p.pluginOpts

theorem trimmed_jsTrim (s : JsString) : Trimmed (.str s) (.str (jsTrim s)) := by
  obtain ⟨a, b, hs, ha, hb⟩ := jsTrim_split s
  exact Or.inr ⟨a, jsTrim s, b, congrArg JsValue.str hs, rfl, ha, hb⟩

theorem trimmed_some {v : JsValue} {s : JsString} (h : v.trimmed = some s) : ∃ t, v = .str t ∧ s = jsTrim t := by
  cases v with
  | str t => exact ⟨t, rfl, (Option.some.inj h).symm⟩
  | null | bool b | num n | arr items | obj fields => cases h

/-! ## Saving -/

/-- what a save has seen, and what it has made -/
theorem save_some {newId : JsString} {f : JsProfileEdit} {q : JsProfile} (h : f.save newId = some q) :
    ∃ method name host opts, f.selectedMethod = some method ∧ f.name = .str name ∧ f.host = .str host ∧
      f.pluginOpts = .str opts ∧ jsTrim host ≠ [] ∧ f.password.lengthIsZero = false ∧ method ≠ [] ∧
      q = JsProfile.ensureId newId {
        id := .str f.profileId
        name := .str (if jsTrim name ≠ [] then jsTrim name else jsTrim host)
        host := .str (jsTrim host)
        remotePort := .num (portValue f.remotePort)
        password := f.password
        method := .str method
        route := .str ((ALL_ROUTES[f.routeIndex]?).getD ROUTE_ALL)
        subscriptionId := (f.editedProfile.getD ({} : Profile).toJs).subscriptionId
        localAddress := (f.editedProfile.getD ({} : Profile).toJs).localAddress
        localPort := (f.editedProfile.getD ({} : Profile).toJs).localPort
        plugin := f.plugin
        pluginOpts := .str (jsTrim opts) } := by
  unfold save at h
  simp only [Option.bind_eq_bind, Option.bind_eq_some_iff] at h
  obtain ⟨method, hmethod, trimmedHost, hhost, h⟩ := h
  split_ifs at h with hbad
  simp only [not_or, Bool.not_eq_true] at hbad
  simp only [Option.bind_eq_some_iff] at h
  obtain ⟨trimmedName, hname, trimmedOpts, hopts, h⟩ := h
  obtain ⟨host, hhost', rfl⟩ := trimmed_some hhost
  obtain ⟨name, hname', rfl⟩ := trimmed_some hname
  obtain ⟨opts, hopts', rfl⟩ := trimmed_some hopts
  exact ⟨method, name, host, opts, hmethod, hname', hhost', hopts', hbad.1, hbad.2.1, hbad.2.2, (Option.some.inj h).symm⟩

theorem ensureId_str {newId id : JsString} (hid : id ≠ []) {p : JsProfile} (hp : p.id = .str id) : p.ensureId newId = p := by
  unfold JsProfile.ensureId
  rw [hp, lengthIsZero_str, decide_eq_false hid]
  rfl

/-- **A field that the form shows is carried over.** -/
theorem save_carried {newId : JsString} {p q : JsProfile} {f : JsProfileEdit} (h : f.save newId = some q)
    (hid : f.profileId ≠ []) {k : ProfileField} (hk : Shows p f k) : Carried p q k := by
  obtain ⟨method, name, host, opts, hmethod, hname, hhost, hopts, -, -, -, hq⟩ := save_some h
  rw [ensureId_str hid rfl] at hq
  subst hq
  cases k with
  | id => exact hk.1.symm
  | name =>
    have hpname : p.name = .str name := hk.symm.trans hname
    refine ⟨?_, ?_⟩
    · rintro ⟨s, hs, hblank⟩
      rw [hpname] at hs
      cases hs
      simp only [hblank, ne_eq, not_true_eq_false, if_false]
    · intro hblank
      have hne : jsTrim name ≠ [] := fun hc => hblank ⟨name, hpname, hc⟩
      show Trimmed p.name (.str (if jsTrim name ≠ [] then jsTrim name else jsTrim host))
      rw [if_pos hne, hpname]
      exact trimmed_jsTrim name
  | host =>
    show Trimmed p.host (.str (jsTrim host))
    rw [hk.symm.trans hhost]
    exact trimmed_jsTrim host
  | remotePort => exact hk.symm
  | password => exact hk
  | method => exact hk method hmethod
  | route => exact hk.symm
  | subscriptionId | localAddress | localPort =>
    have hedited : f.editedProfile = some p := hk
    simp only [Carried, Same, mayTrim, JsProfile.get, hedited, Option.getD_some, Bool.false_eq_true, if_false]
  | plugin => exact hk
  | pluginOpts =>
    show Trimmed p.pluginOpts (.str (jsTrim opts))
    rw [hk.symm.trans hopts]
    exact trimmed_jsTrim opts

/-- the form that is saved is filled in -/
theorem save_iff {newId : JsString} {f : JsProfileEdit} {name host opts : JsString} (hname : f.name = .str name)
    (hhost : f.host = .str host) (hopts : f.pluginOpts = .str opts) : (∃ q, f.save newId = some q) ↔
      jsTrim host ≠ [] ∧ f.password.lengthIsZero = false ∧ ∃ method, f.selectedMethod = some method ∧ method ≠ [] := by
  constructor
  · rintro ⟨q, hq⟩
    obtain ⟨method, name', host', opts', hmethod, -, hhost', -, hne, hpassword, hmne, -⟩ := save_some hq
    rw [hhost] at hhost'
    cases hhost'
    exact ⟨hne, hpassword, method, hmethod, hmne⟩
  · rintro ⟨hne, hpassword, method, hmethod, hmne⟩
    have hnot : ¬ (jsTrim host = [] ∨ f.password.lengthIsZero = true ∨ method = []) := by
      simp [hne, hpassword, hmne]
    unfold save
    simp only [hmethod, hhost, hname, hopts, JsValue.trimmed, Option.bind_eq_bind, Option.bind_some, if_neg hnot]
    exact ⟨_, rfl⟩

/-! ## Changing the form -/

/-- a change of the form leaves the other fields alone -/
theorem shows_apply {p : JsProfile} {f : JsProfileEdit} {edit : Edit} {k : ProfileField} (hk : k ≠ edit.field)
    (h : Shows p f k) : Shows p (edit.apply f) k := by
  cases edit with
  | plugin index =>
    simp only [Edit.apply]
    split_ifs
    · cases k <;> first | exact absurd rfl hk | exact h
    · exact h
  | name | host | remotePort | password | method | methodCustom | route | pluginOpts =>
    cases k <;> first | exact absurd rfl hk | exact h

/-- no change of the form sets the id or the options -/
theorem apply_fixed (f : JsProfileEdit) (edit : Edit) :
    (edit.apply f).profileId = f.profileId ∧ (edit.apply f).pluginOptions = f.pluginOptions := by
  cases edit with
  | plugin index =>
    simp only [Edit.apply]
    split_ifs <;> exact ⟨rfl, rfl⟩
  | name | host | remotePort | password | method | methodCustom | route | pluginOpts => exact ⟨rfl, rfl⟩

/-! ## Loading -/

/-- fields that every stored profile has -/
structure Regular (p : JsProfile) : Prop where
  route : ∃ r ∈ ALL_ROUTES, p.route = .str r
  plugin : ∃ s, p.plugin = .str s
  pluginOpts : ∃ s, p.pluginOpts = .str s
  port : ∀ x, p.remotePort = .num (.finite x) → Binary64.IsDouble x ∧ x ≠ 0

/-- the other fields have the declared types, and the port has no exponent when it is written out -/
structure Declared (p : JsProfile) : Prop where
  name : ∃ s, p.name = .str s
  host : ∃ s, p.host = .str s
  method : ∃ s, p.method = .str s
  port : ∃ n : ℤ, p.remotePort = .num (.finite n) ∧ n.natAbs < 10 ^ 21

theorem indexIn_some {value : JsValue} {options : List JsString} {i : ℕ} (h : indexIn value (options.map .str) = some i) :
    ∃ s, options[i]? = some s ∧ value = .str s := by
  obtain ⟨hi, heq, -⟩ := List.findIdx?_eq_some_iff_getElem.1 h
  rw [List.length_map] at hi
  rw [List.getElem_map] at heq
  refine ⟨options[i], List.getElem?_eq_getElem hi, ?_⟩
  cases value with
  | str s => exact congrArg JsValue.str (of_decide_eq_true heq).symm
  | null | bool b | num n | arr items | obj fields => cases heq

theorem indexIn_none {s : JsString} {options : List JsString} (h : s ∉ options) :
    indexIn (.str s) (options.map .str) = none := by
  unfold indexIn
  rw [List.findIdx?_eq_none_iff, List.forall_mem_map]
  intro t ht
  exact decide_eq_false fun hc => h (hc ▸ ht)

theorem indexIn_mem {s : JsString} {options : List JsString} (h : s ∈ options) :
    ∃ i, indexIn (.str s) (options.map .str) = some i ∧ options[i]? = some s := by
  cases hi : indexIn (.str s) (options.map .str) with
  | none =>
    have hfalse := List.findIdx?_eq_none_iff.1 hi (.str s) (List.mem_map_of_mem h)
    simp [strictEq] at hfalse
  | some i =>
    obtain ⟨t, ht, hs⟩ := indexIn_some hi
    cases hs
    exact ⟨i, rfl, ht⟩

theorem plugin_eq {f : JsProfileEdit} {option : JsValue} (h : f.pluginOptions[f.pluginIndex]? = some option) :
    f.plugin = if strictEq option (.str (js "none")) then .str [] else option := by
  obtain ⟨_, heq⟩ := List.getElem?_eq_some_iff.1 h
  unfold plugin
  rw [List.get_eq_getElem, heq]

/-- the selected option is the plugin, or none -/
theorem optionsOf_index (s : JsString) :
    let options := optionsOf (.str s) (decide (s ≠ []))
    options[(indexIn (.str s) options).getD 0]? = some (.str (if s = [] then js "none" else s)) := by
  have hfound : ∀ {l : List JsString}, s ∈ l →
      (l.map JsValue.str)[(indexIn (.str s) (l.map .str)).getD 0]? = some (.str s) := by
    intro l hl
    obtain ⟨i, hi, hli⟩ := indexIn_mem hl
    rw [hi, Option.getD_some, List.getElem?_map, hli]
    rfl
  have hempty : ([] : JsString) ∉ PLUGINS := by decide
  intro options
  by_cases hmem : s ∈ PLUGINS
  · have hoptions : options = PLUGINS.map .str := by
      obtain ⟨i, hi, -⟩ := indexIn_mem hmem
      refine if_neg ?_
      rw [hi]
      exact fun hc => nomatch hc.2
    have hne : s ≠ [] := fun hc => hempty (hc ▸ hmem)
    rw [hoptions, hfound hmem, if_neg hne]
  by_cases hne : s = []
  · have hoptions : options = PLUGINS.map .str := if_neg (by simp [hne])
    rw [hoptions, indexIn_none hmem, if_pos hne]
    rfl
  · -- the imported plugin is the last option
    have hoptions : options = (PLUGINS ++ [s]).map .str := by
      refine (if_pos ⟨decide_eq_true hne, indexIn_none hmem⟩).trans ?_
      rw [List.map_append]
      rfl
    rw [hoptions, hfound (List.mem_append_right _ List.mem_cons_self), if_neg hne]

/-- the number of a text is the default, or an integer that has been rounded -/
theorem portValue_cases {text : JsString} {x : ℚ} (h : portValue text = .finite x) :
    x = 8388 ∨ ∃ n : ℤ, n ≠ 0 ∧ Binary64.nearest n = some x := by
  unfold portValue at h
  split at h
  · rename_i n hn
    by_cases hzero : n = 0
    · rw [if_pos hzero] at h
      cases h
      exact Or.inl rfl
    · rw [if_neg hzero] at h
      unfold toJsNumber at h
      simp only [signed_abs] at h
      cases hx : Binary64.nearest n with
      | none => simp only [hx, reduceCtorEq] at h
      | some y =>
        simp only [hx, JsNumber.finite.injEq] at h
        exact Or.inr ⟨n, hzero, by rw [hx, h]⟩
  · cases h
    exact Or.inl rfl

theorem portValue_int {text : JsString} {x : ℚ} (h : portValue text = .finite x) : ∃ n : ℤ, x = n := by
  rcases portValue_cases h with rfl | ⟨n, -, hx⟩
  · exact ⟨8388, by norm_num⟩
  · exact Binary64.nearest_int hx

theorem portValue_numberText {n : ℤ} (hne : n ≠ 0) (hdouble : Binary64.IsDouble (n : ℚ)) (hlt : n.natAbs < 10 ^ 21) :
    portValue (numberText (.finite n)) = .finite n := by
  obtain ⟨v, hv, hnearest⟩ := parseInt_numberText hne hdouble hlt
  have hv0 : v ≠ 0 := by
    rintro rfl
    have hzero : Binary64.nearest ((0 : ℤ) : ℚ) = some ((0 : ℤ) : ℚ) := Binary64.isDouble_int (by decide)
    rw [hzero, Option.some.injEq, Int.cast_inj] at hnearest
    exact hne hnearest.symm
  unfold portValue toJsNumber
  simp only [hv, if_neg hv0, signed_abs, hnearest]

/-- **The port goes through its text**: what comes back is the same number exactly when it is an integer that is written
out without an exponent. -/
theorem portValue_numberText_iff {x : ℚ} (hdouble : Binary64.IsDouble x) (hne : x ≠ 0) :
    portValue (numberText (.finite x)) = .finite x ↔ ∃ n : ℤ, x = n ∧ n.natAbs < 10 ^ 21 := by
  constructor
  · intro hport
    obtain ⟨n, rfl⟩ := portValue_int hport
    refine ⟨n, rfl, ?_⟩
    by_contra hlarge
    obtain ⟨v, hv, hsmall⟩ := parseInt_numberText_large hdouble (not_lt.1 hlarge)
    have hfew : v.natAbs < 2 ^ 53 := by omega
    unfold portValue toJsNumber at hport
    simp only [hv, signed_abs, show Binary64.nearest (v : ℚ) = some (v : ℚ) from Binary64.isDouble_int hfew] at hport
    split_ifs at hport
    · have hn : (8388 : ℤ) = n := by exact_mod_cast JsNumber.finite.inj hport
      omega
    · have hn : v = n := by exact_mod_cast JsNumber.finite.inj hport
      omega
  · rintro ⟨n, rfl, hlt⟩
    exact portValue_numberText (by exact_mod_cast hne) hdouble hlt

/-- what a load puts into the form -/
structure Loaded (id : JsString) (p : JsProfile) (f : JsProfileEdit) : Prop where
  profileId : f.profileId = id
  name : f.name = p.name
  host : f.host = p.host
  remotePort : p.remotePort.toText = some f.remotePort
  password : f.password = p.password
  methodIndex : f.methodIndex = (indexIn p.method (METHODS.map .str)).elim (-1 : ℤ) (fun i => i)
  methodCustom : f.methodCustom = if (indexIn p.method (METHODS.map .str)).isSome then .str [] else p.method
  routeIndex : f.routeIndex = (indexIn p.route (ALL_ROUTES.map .str)).getD 0
  plugin : ∃ named, p.plugin.lengthPositive = some named ∧ f.pluginOptions = optionsOf p.plugin named ∧
    f.pluginIndex = (indexIn p.plugin (optionsOf p.plugin named)).getD 0
  pluginOpts : f.pluginOpts = p.pluginOpts
  editedProfile : f.editedProfile = some p

theorem load_loaded {id : JsString} {p : JsProfile} {f : JsProfileEdit} (h : load id p = some f) : Loaded id p f := by
  simp only [load, Option.bind_eq_bind, Option.bind_eq_some_iff] at h
  obtain ⟨text, htext, named, hnamed, h⟩ := h
  cases h
  exact ⟨rfl, rfl, rfl, htext, rfl, rfl, rfl, rfl, ⟨named, hnamed, rfl, rfl⟩, rfl, rfl⟩

/-- the selected method is the method, or its text -/
theorem load_method {id : JsString} {p : JsProfile} {f : JsProfileEdit} (h : load id p = some f) :
    (∃ method ∈ METHODS, p.method = .str method ∧ f.selectedMethod = some method) ∨ f.selectedMethod = p.method.trimmed := by
  have hindex := (load_loaded h).methodIndex
  have hcustom := (load_loaded h).methodCustom
  unfold selectedMethod
  cases hi : indexIn p.method (METHODS.map .str) with
  | some i =>
    obtain ⟨method, hmethod, hp⟩ := indexIn_some hi
    refine Or.inl ⟨method, List.mem_of_getElem? hmethod, hp, ?_⟩
    rw [hi, Option.elim_some] at hindex
    rw [hindex, if_pos (Int.natCast_nonneg i), Int.toNat_natCast]
    exact hmethod
  | none =>
    rw [hi] at hindex hcustom
    rw [hindex, hcustom]
    exact Or.inr rfl

/-- no plugin is shown as the option for it -/
theorem load_plugin {id s : JsString} {p : JsProfile} {f : JsProfileEdit} (h : load id p = some f) (hs : p.plugin = .str s) :
    f.plugin = .str (if s = js "none" then [] else s) := by
  obtain ⟨named, hnamed, hoptions, hindex⟩ := (load_loaded h).plugin
  rw [hs, JsValue.lengthPositive_str, Option.some.injEq] at hnamed
  have hoption : f.pluginOptions[f.pluginIndex]? = some (.str (if s = [] then js "none" else s)) := by
    rw [hoptions, hindex, ← hnamed, hs]
    exact optionsOf_index s
  have hname : [] ≠ js "none" := by decide
  rw [plugin_eq hoption]
  by_cases hempty : s = []
  · rw [if_pos hempty, hempty, if_neg hname]
    rfl
  · simp only [if_neg hempty, strictEq, decide_eq_true_eq]
    split_ifs <;> rfl

theorem load_isSome (id : JsString) {p : JsProfile} (hr : Regular p) (hd : Declared p) : ∃ f, load id p = some f := by
  obtain ⟨n, hn, -⟩ := hd.port
  obtain ⟨s, hs⟩ := hr.plugin
  simp only [load, hn, hs, JsValue.toText, JsValue.lengthPositive_str, Option.bind_eq_bind, Option.bind_some]
  exact ⟨_, rfl⟩

/-- **The form shows the profile.** -/
theorem load_shows {id : JsString} {p : JsProfile} {f : JsProfileEdit} (h : load id p = some f) (hid : p.id = .str id)
    (hne : id ≠ []) (hr : Regular p) (hd : Declared p) (k : ProfileField) : Shows p f k ∧ f.profileId = id := by
  have hl := load_loaded h
  refine ⟨?_, hl.profileId⟩
  cases k with
  | id =>
    show p.id = .str f.profileId ∧ f.profileId ≠ []
    rw [hl.profileId]
    exact ⟨hid, hne⟩
  | name => exact hl.name
  | host => exact hl.host
  | remotePort =>
    obtain ⟨n, hn, hlt⟩ := hd.port
    obtain ⟨hdouble, hn0⟩ := hr.port n hn
    have htext := hl.remotePort
    rw [hn, JsValue.toText, Option.some.injEq] at htext
    show p.remotePort = .num (portValue f.remotePort)
    rw [hn, ← htext, portValue_numberText (by exact_mod_cast hn0) hdouble hlt]
  | password => exact hl.password
  | method =>
    intro method hselected
    rcases load_method h with ⟨preset, -, hp, hpreset⟩ | hcustom
    · rw [hpreset, Option.some.injEq] at hselected
      exact Or.inl (hselected ▸ hp.symm)
    · obtain ⟨t, ht, rfl⟩ := trimmed_some (hcustom.symm.trans hselected)
      rw [ht]
      exact trimmed_jsTrim t
  | route =>
    obtain ⟨r, hr, hroute⟩ := hr.route
    obtain ⟨i, hi, hri⟩ := indexIn_mem hr
    show p.route = .str ((ALL_ROUTES[f.routeIndex]?).getD ROUTE_ALL)
    rw [hl.routeIndex, hroute, hi, Option.getD_some, hri, Option.getD_some]
  | subscriptionId | localAddress | localPort => exact hl.editedProfile
  | plugin =>
    obtain ⟨s, hs⟩ := hr.plugin
    have hplugin := load_plugin h hs
    refine ⟨?_, ?_⟩
    · intro hnone
      rw [hs] at hnone
      cases hnone
      rw [hplugin, if_pos rfl]
    · intro hother
      have hne : s ≠ js "none" := fun hc => hother (hs.trans (congrArg JsValue.str hc))
      rw [hplugin, if_neg hne, hs]
  | pluginOpts => exact hl.pluginOpts

/-- the editor asks for a host, a password and a method -/
def Refused (p : JsProfile) : Prop := Blank p.host ∨ p.password.lengthIsZero = true ∨ Blank p.method

theorem preset_ne : ∀ method ∈ METHODS, method ≠ [] ∧ jsTrim method ≠ [] := by
  refine forall_mem_of_all ?_
  decide +kernel

/-- a method is selected if there is one -/
theorem load_selected {id method : JsString} {p : JsProfile} {f : JsProfileEdit} (h : load id p = some f)
    (hmethod : p.method = .str method) : (∃ m, f.selectedMethod = some m ∧ m ≠ []) ↔ jsTrim method ≠ [] := by
  rcases load_method h with ⟨preset, hpreset, hp, hselected⟩ | hcustom
  · rw [hmethod, JsValue.str.injEq] at hp
    subst hp
    exact iff_of_true ⟨method, hselected, (preset_ne method hpreset).1⟩ (preset_ne method hpreset).2
  · rw [hcustom, hmethod]
    simp [JsValue.trimmed]

/-- **What the editor asks for**: the form of a profile is saved unless the profile has no host, password or method. -/
theorem load_save_iff (newId : JsString) {id : JsString} {p : JsProfile} {f : JsProfileEdit} (h : load id p = some f)
    (hr : Regular p) (hd : Declared p) : (∃ q, f.save newId = some q) ↔ ¬ Refused p := by
  obtain ⟨name, hname⟩ := hd.name
  obtain ⟨host, hhost⟩ := hd.host
  obtain ⟨method, hmethod⟩ := hd.method
  obtain ⟨opts, hopts⟩ := hr.pluginOpts
  have hl := load_loaded h
  rw [save_iff (hl.name.trans hname) (hl.host.trans hhost) (hl.pluginOpts.trans hopts), load_selected h hmethod, hl.password]
  unfold Refused
  rw [hhost, hmethod, blank_str, blank_str]
  simp only [not_or, Bool.not_eq_true]

end JsProfileEdit

end ShadowsocksOhos
