/-
The profiles that the store gives back: those that a link, a document, a form or the page has put there. Their routes, their
plugins and their ids are as the editor expects them, and the numbers among their ports have been rounded and are not 0.

- `getAll_saveAll`: what is read back of a list that was written.
- `stored_regular`: what holds of every stored profile.
-/
import ShadowsocksOhos.App.EditFields

namespace ShadowsocksOhos

open ProfileFile (coalesce)
open JsProfileEdit

/-! ## Written and read back -/

/-- what is read back of a profile that was written -/
def JsProfile.reread (p : JsProfile) : JsProfile where
  id := coalesce (.str []) (some p.id.reread)
  name := coalesce (.str (js "Default")) (some p.name.reread)
  host := coalesce (.str []) (some p.host.reread)
  remotePort := coalesce (.num (.finite 8388)) (some p.remotePort.reread)
  password := coalesce (.str []) (some p.password.reread)
  method := coalesce (.str (js "aes-256-gcm")) (some p.method.reread)
  route := coalesce (.str ROUTE_ALL) (some p.route.reread)
  subscriptionId := coalesce (.str []) (some p.subscriptionId.reread)
  localAddress := coalesce (.str (js "127.0.0.1")) (some p.localAddress.reread)
  localPort := coalesce (.num (.finite 1080)) (some p.localPort.reread)
  plugin := coalesce (.str []) (some p.plugin.reread)
  pluginOpts := coalesce (.str []) (some p.pluginOpts.reread)

theorem fromJson_reread (p : JsProfile) : ProfileFile.fromJson (ProfileFile.toJson p).reread = some p.reread := rfl

/-- the file gives back what was written into it -/
theorem getAll_saveAll {stringify : JsValue → JsString} {fs : ProfileFile.Disk} (hs : fs.Separate) {ps : List JsProfile}
    (h : jsonParse (stringify (.arr (ps.map ProfileFile.toJson))) = some (JsValue.reread (.arr (ps.map ProfileFile.toJson))))
    {fails : ProfileFile.Call → Bool} (hf : ProfileFile.Succeeds fails) :
    ProfileFile.getAll fails (ProfileFile.saveAll stringify ps fs) = ps.map JsProfile.reread := by
  have hitems : (JsValue.rereadItems (ps.map ProfileFile.toJson)).mapM ProfileFile.fromJson =
      some (ps.map JsProfile.reread) := by
    clear h
    induction ps with
    | nil => rfl
    | cons p ps ih =>
      simp only [List.map_cons, JsValue.rereadItems, List.mapM_cons, fromJson_reread, ih]
      rfl
  have hlist : ProfileFile.profilesOf (stringify (.arr (ps.map ProfileFile.toJson))) = some (ps.map JsProfile.reread) := by
    unfold ProfileFile.profilesOf
    rw [h]
    exact hitems
  have hne : stringify (.arr (ps.map ProfileFile.toJson)) ≠ [] := by
    intro hc
    rw [hc] at h
    cases h
  obtain ⟨-, hbytes, -⟩ := ProfileFile.write_spec hs .profiles (stringify (.arr (ps.map ProfileFile.toJson)))
  unfold ProfileFile.getAll
  rw [ProfileFile.read_succeeds hf]
  unfold ProfileFile.saveAll
  rw [hbytes, Option.map_some, Option.getD_some, JsonStore.textOf_bytesOf]
  simp only [if_neg hne, hlist, Option.getD_some]

/-- a profile as it is read back from the store, where one of the entrances has put it, or the page after any changes -/
inductive Stored : JsProfile → Prop where
  | entrance (draws : ℕ → ℕ → Fin 16) (e : Entrance) {q : JsProfile} (hq : q ∈ e.stored fun n => newProfileId (draws n)) :
    Stored q.reread
  | page {p q : JsProfile} {id newId : JsString} {f : JsProfileEdit} (hp : Stored p) (hid : p.id = .str id)
    (hload : load id p = some f) (edits : List Edit) (hq : (edits.foldl Edit.apply f).save newId = some q) : Stored q.reread

/-- only four fields matter -/
theorem regular_congr {p q : JsProfile} (h : Regular q) (hroute : p.route = q.route) (hplugin : p.plugin = q.plugin)
    (hopts : p.pluginOpts = q.pluginOpts) (hport : p.remotePort = q.remotePort) : Regular p :=
  ⟨hroute ▸ h.route, hplugin ▸ h.plugin, hopts ▸ h.pluginOpts, hport ▸ h.port⟩

theorem regular_default : Binary64.IsDouble (8388 : ℚ) ∧ (8388 : ℚ) ≠ 0 :=
  ⟨Binary64.isDouble_int (n := 8388) (by decide), by norm_num⟩

theorem regular_reread {p : JsProfile} (h : Regular p) : Regular p.reread := by
  obtain ⟨r, hr, hroute⟩ := h.route
  obtain ⟨s, hplugin⟩ := h.plugin
  obtain ⟨o, hopts⟩ := h.pluginOpts
  refine ⟨⟨r, hr, ?_⟩, ⟨s, ?_⟩, ⟨o, ?_⟩, ?_⟩
  · simp only [JsProfile.reread, hroute, JsValue.reread, coalesce]
  · simp only [JsProfile.reread, hplugin, JsValue.reread, coalesce]
  · simp only [JsProfile.reread, hopts, JsValue.reread, coalesce]
  · intro x hx
    cases hp : p.remotePort with
    | num n =>
      cases n with
      | finite q =>
        simp only [JsProfile.reread, hp, JsValue.reread, coalesce, JsValue.num.injEq, JsNumber.finite.injEq] at hx
        exact h.port x (hx ▸ hp)
      | infinite negative =>
        simp only [JsProfile.reread, hp, JsValue.reread, coalesce, JsValue.num.injEq, JsNumber.finite.injEq] at hx
        exact hx ▸ regular_default
    | null =>
      simp only [JsProfile.reread, hp, JsValue.reread, coalesce, JsValue.num.injEq, JsNumber.finite.injEq] at hx
      exact hx ▸ regular_default
    | bool b | str s | arr items | obj fields =>
      simp only [JsProfile.reread, hp, JsValue.reread, coalesce] at hx
      cases hx

theorem parseUrl_route {url : JsString} {p : Profile} (h : parseUrl url = some p) : p.route = ROUTE_ALL := by
  simp only [parseUrl] at h
  repeat' split at h
  all_goals cases h
  all_goals rfl

theorem regular_url {url : JsString} {p : Profile} (h : parseUrl url = some p) : Regular p.toJs := by
  obtain ⟨port, hport, hpos, hle⟩ := (parseUrl_some h).2.2.port
  refine ⟨⟨ROUTE_ALL, by decide, congrArg JsValue.str (parseUrl_route h)⟩, ⟨_, rfl⟩, ⟨_, rfl⟩, ?_⟩
  intro x hx
  cases hx
  rw [hport]
  exact ⟨Binary64.isDouble_int (by omega), by exact_mod_cast (by omega : port ≠ 0)⟩

/-- the profile of a server has the defaults, and a port of the document -/
theorem regular_server {server : JsValue} (hserver : JsonParse.Rounded server) {p : JsProfile}
    (h : SubscriptionBody.describedServer server = some p) : Regular p := by
  cases server with
  | obj fields =>
    obtain ⟨-, ⟨hport, htrue⟩, -⟩ := SubscriptionBody.describedServer_some h
    simp only [SubscriptionBody.describedServer, Option.bind_eq_bind, Option.bind_eq_some_iff] at h
    obtain ⟨host, -, port, -, password, -, method, -, h⟩ := h
    have hdefaults : p.route = .str ROUTE_ALL ∧ p.plugin = .str [] ∧ p.pluginOpts = .str [] := by
      cases h
      exact ⟨rfl, rfl, rfl⟩
    refine ⟨⟨ROUTE_ALL, by decide, hdefaults.1⟩, ⟨_, hdefaults.2.1⟩, ⟨_, hdefaults.2.2⟩, ?_⟩
    intro x hx
    rw [hx] at hport htrue
    have hrounded : JsonParse.RoundedFields fields := hserver
    refine ⟨hrounded.get hport, ?_⟩
    simpa [JsValue.truthy] using htrue
  | null | bool b | num n | str s | arr items => cases h

theorem rounded_items {doc : JsValue} (hdoc : JsonParse.Rounded doc) {items : List JsValue}
    (h : doc.prop (js "servers") = some (some (.arr items))) : JsonParse.RoundedItems items := by
  cases doc with
  | obj fields =>
    have hrounded : JsonParse.RoundedFields fields := hdoc
    exact hrounded.get (Option.some.inj h)
  | arr items | str s =>
    have hkey : js "servers" ≠ js "length" := by decide
    simp [JsValue.prop, hkey] at h
  | null | bool b | num n => cases h

theorem regular_subscribed {body : JsString} {p : JsProfile} (h : p ∈ SubscriptionBody.subscribed body) : Regular p := by
  unfold SubscriptionBody.subscribed at h
  split at h
  · cases h
  rename_i text htext
  split_ifs at h
  · cases hdoc : jsonParse text with
    | none =>
      rw [hdoc] at h
      cases h
    | some doc =>
      rw [hdoc, Option.map_some, Option.getD_some] at h
      unfold SubscriptionBody.described at h
      split at h
      · rename_i items hitems
        obtain ⟨server, hmem, hserver⟩ := List.mem_filterMap.1 h
        exact regular_server ((rounded_items (JsonParse.jsonParse_rounded hdoc) hitems).mem hmem) hserver
      · cases h
  · obtain ⟨line, -, hline⟩ := List.mem_filterMap.1 h
    obtain ⟨profile, hurl, rfl⟩ := Option.map_eq_some_iff.1 hline
    exact regular_url hurl

theorem ownAll_cases {newId : ℕ → JsString} {subscriptionId : JsString} {n : ℕ} {ps : List JsProfile}
    (hps : ∀ p ∈ ps, SubscriptionBody.Anonymous p) {q : JsProfile}
    (hq : q ∈ SubscriptionBody.ownAll newId subscriptionId n ps) :
    ∃ p ∈ ps, ∃ k, q = { p with subscriptionId := .str subscriptionId, id := .str (newId k) } := by
  induction ps generalizing n with
  | nil => cases hq
  | cons p ps ih =>
    rcases List.mem_cons.1 hq with rfl | hq
    · exact ⟨p, List.mem_cons_self, n, SubscriptionBody.own_eq newId subscriptionId (hps p List.mem_cons_self)⟩
    · obtain ⟨r, hr, hk⟩ := ih (fun r hr => hps r (List.mem_cons_of_mem p hr)) hq
      exact ⟨r, List.mem_cons_of_mem p hr, hk⟩

theorem regular_body {newId : ℕ → JsString} {subscriptionId body : JsString} {q : JsProfile}
    (h : q ∈ (SubscriptionBody.parseSubscriptionBody newId subscriptionId body).getD []) :
    Regular q ∧ ∃ k, q.id = .str (newId k) := by
  rw [SubscriptionBody.parseSubscriptionBody_eq] at h
  split_ifs at h
  · rw [Option.getD_some] at h
    obtain ⟨p, hp, k, rfl⟩ := ownAll_cases (SubscriptionBody.anonymous_subscribed body) h
    exact ⟨regular_congr (regular_subscribed hp) rfl rfl rfl rfl, k, rfl⟩
  · cases h

/-- the number of a text is not 0, and has been rounded -/
theorem portValue_regular {text : JsString} {x : ℚ} (h : portValue text = .finite x) : Binary64.IsDouble x ∧ x ≠ 0 := by
  rcases portValue_cases h with rfl | ⟨n, hn, hx⟩
  · exact regular_default
  · exact ⟨Binary64.isDouble_nearest hx, Binary64.nearest_ne_zero hn hx⟩

/-- the options are names, and the profile has an id or gets one -/
theorem save_regular {newId : JsString} {f : JsProfileEdit} {q : JsProfile} (h : f.save newId = some q)
    (hoptions : ∀ option ∈ f.pluginOptions, ∃ s, option = .str s) (hid : f.profileId ≠ [] ∨ newId ≠ []) :
    Regular q ∧ ∃ id, q.id = .str id ∧ id ≠ [] := by
  obtain ⟨method, name, host, opts, -, -, -, -, -, -, -, hq⟩ := save_some h
  have hroutes : ∀ i : ℕ, (ALL_ROUTES[i]?).getD ROUTE_ALL ∈ ALL_ROUTES := by
    intro i
    cases hi : ALL_ROUTES[i]? with
    | none => exact List.mem_cons_self
    | some r => exact List.mem_of_getElem? hi
  have hplugin : ∃ s, f.plugin = .str s := by
    unfold plugin
    simp only
    split_ifs
    · exact ⟨_, rfl⟩
    · exact hoptions _ (List.get_mem _ _)
  by_cases hempty : f.profileId = []
  · have hzero : (JsValue.str f.profileId).lengthIsZero = true := by
      rw [lengthIsZero_str, hempty]
      rfl
    unfold JsProfile.ensureId at hq
    rw [if_pos hzero] at hq
    subst hq
    exact ⟨⟨⟨_, hroutes _, rfl⟩, hplugin, ⟨_, rfl⟩, fun x hx => portValue_regular (JsValue.num.inj hx)⟩, newId, rfl,
      hid.resolve_left (not_not.2 hempty)⟩
  · rw [ensureId_str hempty rfl] at hq
    subst hq
    exact ⟨⟨⟨_, hroutes _, rfl⟩, hplugin, ⟨_, rfl⟩, fun x hx => portValue_regular (JsValue.num.inj hx)⟩, _, rfl, hempty⟩

theorem foldl_fixed (edits : List Edit) (f : JsProfileEdit) : (edits.foldl Edit.apply f).profileId = f.profileId ∧
    (edits.foldl Edit.apply f).pluginOptions = f.pluginOptions := by
  induction edits generalizing f with
  | nil => exact ⟨rfl, rfl⟩
  | cons edit edits ih =>
    obtain ⟨h1, h2⟩ := ih (edit.apply f)
    obtain ⟨h3, h4⟩ := apply_fixed f edit
    exact ⟨h1.trans h3, h2.trans h4⟩

theorem load_options {id s : JsString} {p : JsProfile} {f : JsProfileEdit} (h : load id p = some f) (hs : p.plugin = .str s) :
    f.profileId = id ∧ ∀ option ∈ f.pluginOptions, ∃ t, option = .str t := by
  simp only [load, Option.bind_eq_bind, Option.bind_eq_some_iff] at h
  obtain ⟨text, -, named, -, h⟩ := h
  cases h
  refine ⟨rfl, ?_⟩
  have hpresets : ∀ option ∈ PLUGINS.map JsValue.str, ∃ t, option = .str t := by
    rw [List.forall_mem_map]
    exact fun t _ => ⟨t, rfl⟩
  intro option hoption
  simp only [optionsOf] at hoption
  split_ifs at hoption
  · rcases List.mem_append.1 hoption with hpreset | hplugin
    · exact hpresets option hpreset
    · exact ⟨s, (List.mem_singleton.1 hplugin).trans hs⟩
  · exact hpresets option hoption

theorem regular_entrance {newId : ℕ → JsString} (hnew : ∀ n, newId n ≠ []) {e : Entrance} {q : JsProfile}
    (h : q ∈ e.stored newId) : Regular q ∧ ∃ id, q.id = .str id ∧ id ≠ [] := by
  cases e with
  | url text =>
    obtain ⟨profile, hmem, rfl⟩ := List.mem_map.1 h
    have hurl := Option.mem_toList.1 hmem
    have hid : profile.toJs.ensureId (newId 0) = { profile.toJs with id := .str (newId 0) } := by
      unfold JsProfile.ensureId
      rw [if_pos]
      show (JsValue.str profile.id).lengthIsZero = true
      rw [(parseUrl_some hurl).1]
      rfl
    rw [hid]
    exact ⟨regular_congr (regular_url hurl) rfl rfl rfl rfl, _, rfl, hnew 0⟩
  | body subscriptionId text =>
    obtain ⟨hregular, k, hid⟩ := regular_body h
    exact ⟨hregular, _, hid, hnew k⟩
  | form f =>
    have hsave : f.toJs.save (newId 0) = some q := (save_toJs _ f).trans (Option.mem_toList.1 h)
    refine save_regular hsave ?_ (Or.inr (hnew 0))
    show ∀ option ∈ f.pluginOptions.map JsValue.str, ∃ s, option = .str s
    rw [List.forall_mem_map]
    exact fun s _ => ⟨s, rfl⟩

/-- **Stored profiles are regular**, and have ids. -/
theorem stored_regular {p : JsProfile} (h : Stored p) : Regular p ∧ ∃ id, p.id = .str id ∧ id ≠ [] := by
  have hreread : ∀ {q : JsProfile}, (Regular q ∧ ∃ id, q.id = .str id ∧ id ≠ []) →
      Regular q.reread ∧ ∃ id, q.reread.id = .str id ∧ id ≠ [] := by
    rintro q ⟨hregular, id, hid, hne⟩
    refine ⟨regular_reread hregular, id, ?_, hne⟩
    simp only [JsProfile.reread, hid, JsValue.reread, coalesce]
  induction h with
  | entrance draws e hq => exact hreread (regular_entrance (fun n => newProfileId_ne (draws n)) hq)
  | page hp hid hload edits hq ih =>
    obtain ⟨hregular, id, hid', hne⟩ := ih
    obtain ⟨s, hs⟩ := hregular.plugin
    obtain ⟨hprofileId, hoptions⟩ := load_options hload hs
    have hfixed := foldl_fixed edits
    rw [hid, JsValue.str.injEq] at hid'
    refine hreread (save_regular hq ?_ (Or.inl ?_))
    · rw [(hfixed _).2]
      exact hoptions
    · rw [(hfixed _).1, hprofileId, hid']
      exact hne

end ShadowsocksOhos
