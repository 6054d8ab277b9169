/-
Whether the profiles that reach the store can be dialled: a host, a method and a password, and a port that the core takes.
There are three entrances: a URL, the body of a subscription, and the editor. `parseUrl` checks everything, `parseSip008`
only that the values are true, and the editor everything but the range of the port.

- `dialable_port`: the config of such a profile passes the check in `extract_one_spec`.
- `stored_dialable_iff`: what is stored can be dialled exactly when the document or the form says so.
- `undialable`: a form with a port that is too large.
-/
import ShadowsocksOhos.App.ProfileEdit
import ShadowsocksOhos.App.SubscriptionBody
import ShadowsocksOhos.Ffi.PluginConfig

namespace ShadowsocksOhos

/-! ## Profiles and configs -/

structure JsProfile.Dialable (p : JsProfile) : Prop where
  host : ∃ s, p.host = .str s ∧ s ≠ []
  method : ∃ s, p.method = .str s ∧ s ≠ []
  password : ∃ s, p.password = .str s ∧ s ≠ []
  port : ∃ n, p.remotePort = .num n ∧ n.IsPort

/-- what `serde_json` reads where `JSON.stringify` has written a natural number -/
def written (n : ℕ) : Json := .num (.posInt (UInt64.ofNat n))

/-- the config has a port, and an entry with this port passes the check of `extract_one_spec` -/
def PassesPortCheck (p : JsProfile) : Prop := ∀ aclPath config, p.toTunConfig aclPath = some config →
  ∃ n : ℕ, config.prop (js "server_port") = some (some (.num (.finite n))) ∧
    ∀ entry : Json, entry.get kServerPort = some (written n) → portOf entry = some (UInt16.ofNat n)

theorem toTunConfig_port {aclPath : JsString} {p : JsProfile} {config : JsValue} (h : p.toTunConfig aclPath = some config) :
    config.prop (js "server_port") = some (some p.remotePort) := by
  unfold JsProfile.toTunConfig at h
  simp only [Option.bind_eq_bind, Option.bind_eq_some_iff] at h
  obtain ⟨withPlugin, -, hconfig⟩ := h
  cases hconfig
  rfl

theorem portOf_written {n : ℕ} (h : n ≤ 65535) {entry : Json} (he : entry.get kServerPort = some (written n)) :
    portOf entry = some (UInt16.ofNat n) := by
  have hn : (UInt64.ofNat n).toNat = n := by
    rw [UInt64.toNat_ofNat']
    omega
  unfold portOf
  rw [he]
  simp only [written, Option.bind_some, Json.asU64, hn]
  exact if_pos (by omega)

/-- **The config passes the port check.** -/
theorem dialable_port {p : JsProfile} (h : p.Dialable) : PassesPortCheck p := by
  intro aclPath config hconfig
  obtain ⟨n, hport, m, rfl, -, hle⟩ := h.port
  refine ⟨m, ?_, fun entry he => portOf_written hle he⟩
  rw [toTunConfig_port hconfig, hport]

theorem dialable_toJs {p : Profile} (h : Dialable p) : p.toJs.Dialable := by
  obtain ⟨port, hport, h1, h2⟩ := h.port
  refine ⟨⟨_, rfl, h.host⟩, ⟨_, rfl, h.method⟩, ⟨_, rfl, h.password⟩, _, rfl, ?_⟩
  rw [hport]
  exact (isPort_int port).2 ⟨h1, h2⟩

/-- only four fields matter -/
theorem dialable_congr {p q : JsProfile} (hhost : p.host = q.host) (hmethod : p.method = q.method)
    (hpassword : p.password = q.password) (hport : p.remotePort = q.remotePort) : p.Dialable ↔ q.Dialable := by
  constructor
  · intro h
    exact ⟨hhost ▸ h.host, hmethod ▸ h.method, hpassword ▸ h.password, hport ▸ h.port⟩
  · intro h
    exact ⟨hhost ▸ h.host, hmethod ▸ h.method, hpassword ▸ h.password, hport ▸ h.port⟩

theorem dialable_ensureId {newId : JsString} {p : JsProfile} : (p.ensureId newId).Dialable ↔ p.Dialable := by
  unfold JsProfile.ensureId
  split_ifs
  · exact dialable_congr rfl rfl rfl rfl
  · rfl

/-! ## The body of a subscription -/

namespace SubscriptionBody

/-- the elements of the servers of a document -/
def itemsOf (doc : JsValue) : List JsValue :=
  match doc.prop (js "servers") with
  | some (some (.arr items)) => items
  | _ => []

/-- an entry that `parseSip008` takes: its four fields are true -/
def WellFormed (fields : List (JsString × JsValue)) : Prop :=
  ∀ key ∈ [js "server", js "server_port", js "password", js "method"], ∃ v, Dict.get key fields = some v ∧ v.truthy = true

/-- an entry whose fields have the declared types, and whose port is in range -/
structure EntryOk (fields : List (JsString × JsValue)) : Prop where
  server : ∃ s, Dict.get (js "server") fields = some (.str s)
  method : ∃ s, Dict.get (js "method") fields = some (.str s)
  password : ∃ s, Dict.get (js "password") fields = some (.str s)
  port : ∃ n, Dict.get (js "server_port") fields = some (.num n) ∧ n.IsPort

/-- every entry that gives a profile is fine -/
def DocumentOk (body : JsString) : Prop := ∀ doc, documentOf body = some doc → documentOk doc = true →
  ∀ fields, .obj fields ∈ itemsOf doc → WellFormed fields → EntryOk fields

theorem described_eq (doc : JsValue) : described doc = (itemsOf doc).filterMap describedServer := by
  unfold described itemsOf
  rcases doc.prop (js "servers") with _ | _ | v
  · rfl
  · rfl
  · cases v <;> rfl

/-- the fields of an entry that gives a profile -/
theorem describedServer_some {fields : List (JsString × JsValue)} {p : JsProfile}
    (h : describedServer (.obj fields) = some p) :
    (Dict.get (js "server") fields = some p.host ∧ p.host.truthy = true) ∧
      (Dict.get (js "server_port") fields = some p.remotePort ∧ p.remotePort.truthy = true) ∧
      (Dict.get (js "password") fields = some p.password ∧ p.password.truthy = true) ∧
      Dict.get (js "method") fields = some p.method ∧ p.method.truthy = true := by
  simp only [describedServer, Option.bind_eq_bind, Option.bind_eq_some_iff, Option.filter_eq_some_iff] at h
  obtain ⟨host, hhost, port, hport, password, hpassword, method, hmethod, h⟩ := h
  cases h
  exact ⟨hhost, hport, hpassword, hmethod⟩

theorem wellFormed_some {fields : List (JsString × JsValue)} {p : JsProfile}
    (h : describedServer (.obj fields) = some p) : WellFormed fields := by
  obtain ⟨hhost, hport, hpassword, hmethod⟩ := describedServer_some h
  intro key hkey
  simp only [List.mem_cons, List.not_mem_nil, or_false] at hkey
  rcases hkey with rfl | rfl | rfl | rfl
  · exact ⟨_, hhost⟩
  · exact ⟨_, hport⟩
  · exact ⟨_, hpassword⟩
  · exact ⟨_, hmethod⟩

theorem some_wellFormed {fields : List (JsString × JsValue)} (h : WellFormed fields) :
    ∃ p, describedServer (.obj fields) = some p := by
  obtain ⟨host, hhost, htrue1⟩ := h (js "server") (by simp)
  obtain ⟨port, hport, htrue2⟩ := h (js "server_port") (by simp)
  obtain ⟨password, hpassword, htrue3⟩ := h (js "password") (by simp)
  obtain ⟨method, hmethod, htrue4⟩ := h (js "method") (by simp)
  simp only [describedServer, hhost, hport, hpassword, hmethod, JsValue.filter_truthy htrue1, JsValue.filter_truthy htrue2,
    JsValue.filter_truthy htrue3, JsValue.filter_truthy htrue4, Option.bind_eq_bind, Option.bind_some]
  exact ⟨_, rfl⟩

/-- an entry is fine exactly when its profile can be dialled: a true string is not empty -/
theorem entryOk_iff {fields : List (JsString × JsValue)} {p : JsProfile} (h : describedServer (.obj fields) = some p) :
    EntryOk fields ↔ p.Dialable := by
  obtain ⟨⟨hhost, htrue1⟩, ⟨hport, -⟩, ⟨hpassword, htrue3⟩, hmethod, htrue4⟩ := describedServer_some h
  have hstr : ∀ {v : JsValue}, v.truthy = true → ((∃ s, v = .str s) ↔ ∃ s, v = .str s ∧ s ≠ []) := by
    intro v hv
    constructor
    · rintro ⟨s, rfl⟩
      exact ⟨s, rfl, by simpa [JsValue.truthy] using hv⟩
    · rintro ⟨s, hs, -⟩
      exact ⟨s, hs⟩
  constructor
  · intro hok
    obtain ⟨h1, h2, h3, h4⟩ := hok
    simp only [hhost, hport, hpassword, hmethod, Option.some.injEq] at h1 h2 h3 h4
    exact ⟨(hstr htrue1).1 h1, (hstr htrue4).1 h2, (hstr htrue3).1 h3, h4⟩
  · intro hdial
    obtain ⟨h1, h2, h3, h4⟩ := hdial
    refine ⟨?_, ?_, ?_, ?_⟩ <;> simp only [hhost, hport, hpassword, hmethod, Option.some.injEq]
    · exact (hstr htrue1).2 h1
    · exact (hstr htrue4).2 h2
    · exact (hstr htrue3).2 h3
    · exact h4

theorem described_dialable_iff (doc : JsValue) : (∀ p ∈ described doc, p.Dialable) ↔
    ∀ fields, .obj fields ∈ itemsOf doc → WellFormed fields → EntryOk fields := by
  rw [described_eq]
  constructor
  · intro hall fields hmem hwell
    obtain ⟨p, hp⟩ := some_wellFormed hwell
    exact (entryOk_iff hp).2 (hall p (List.mem_filterMap.2 ⟨_, hmem, hp⟩))
  · intro hall p hp
    obtain ⟨v, hmem, hv⟩ := List.mem_filterMap.1 hp
    cases v with
    | obj fields => exact (entryOk_iff hv).1 (hall fields hmem (wellFormed_some hv))
    | null | bool b | num n | str s | arr items => cases hv

/-- every URL of a list gives a profile that can be dialled -/
theorem listed_dialable (text : JsString) : ∀ p ∈ listed text, p.Dialable := by
  intro p hp
  obtain ⟨line, -, hline⟩ := List.mem_filterMap.1 hp
  obtain ⟨profile, hurl, rfl⟩ := Option.map_eq_some_iff.1 hline
  exact dialable_toJs (parseUrl_some hurl).2.2

theorem subscribed_dialable_iff {body : JsString} (hok : (documentOf body).all documentOk = true) :
    (∀ p ∈ subscribed body, p.Dialable) ↔ DocumentOk body := by
  unfold DocumentOk
  unfold documentOf at hok ⊢
  unfold subscribed
  cases htext : bodyText body with
  | none => simp
  | some text =>
    rw [htext, Option.bind_some] at hok
    simp only [Option.bind_some]
    by_cases hbrace : js "\x7b" <+: jsTrim text
    · rw [if_pos hbrace] at hok
      simp only [if_pos hbrace]
      cases hdoc : jsonParse text with
      | none => simp
      | some doc =>
        rw [hdoc, Option.all_some] at hok
        simp only [Option.map_some, Option.getD_some, Option.some.injEq, forall_eq', hok, forall_const]
        exact described_dialable_iff doc
    · simp only [if_neg hbrace]
      exact iff_of_true (listed_dialable text) nofun

/-- the id and the owner do not matter -/
theorem ownAll_dialable_iff (newId : ℕ → JsString) (subscriptionId : JsString) (n : ℕ) {ps : List JsProfile}
    (hps : ∀ p ∈ ps, Anonymous p) :
    (∀ p ∈ ownAll newId subscriptionId n ps, p.Dialable) ↔ ∀ p ∈ ps, p.Dialable := by
  have hsame : ∀ (p : JsProfile) (sub : JsValue), { p.unnumbered with subscriptionId := sub }.Dialable = p.Dialable := by
    intro p sub
    apply propext
    exact dialable_congr rfl rfl rfl rfl
  have hmap := map_unnumbered hsame (ownAll_map newId subscriptionId n hps)
  have hmem : ∀ qs : List JsProfile, (∀ p ∈ qs, p.Dialable) ↔ ∀ P ∈ qs.map JsProfile.Dialable, P := by
    intro qs
    rw [List.forall_mem_map]
  rw [hmem, hmem, hmap]

/-- **The profiles of a body.** -/
theorem body_dialable_iff (newId : ℕ → JsString) (subscriptionId body : JsString) :
    (∀ p ∈ (parseSubscriptionBody newId subscriptionId body).getD [], p.Dialable) ↔ DocumentOk body := by
  rw [parseSubscriptionBody_eq]
  by_cases hok : (documentOf body).all documentOk = true
  · rw [if_pos hok, Option.getD_some, ownAll_dialable_iff newId subscriptionId 0 (anonymous_subscribed body)]
    exact subscribed_dialable_iff hok
  · -- the loop throws, and nothing is stored
    rw [if_neg hok]
    refine iff_of_true nofun ?_
    intro doc hdoc hdocOk
    rw [hdoc, Option.all_some] at hok
    exact absurd hdocOk hok

end SubscriptionBody

/-! ## The editor -/

namespace ProfileEdit

/-- the form has a host, a password and a method -/
def Filled (f : ProfileEdit) : Prop :=
  jsTrim f.host ≠ [] ∧ f.password ≠ [] ∧ ∃ method, f.selectedMethod = some method ∧ method ≠ []

theorem save_dialable_iff (newId : JsString) (f : ProfileEdit) :
    (∀ p, f.save newId = some p → p.Dialable) ↔ (f.Filled → PortText f.remotePort) := by
  unfold save Filled
  cases hmethod : f.selectedMethod with
  | none => simp
  | some method =>
    simp only [Option.some.injEq, exists_eq_left']
    by_cases hbad : jsTrim f.host = [] ∨ f.password = [] ∨ method = []
    · rw [if_pos hbad]
      refine iff_of_true nofun ?_
      rintro ⟨h1, h2, h3⟩
      exact absurd hbad (by simp [h1, h2, h3])
    · rw [if_neg hbad]
      simp only [not_or] at hbad
      obtain ⟨hhost, hpassword, hne⟩ := hbad
      simp only [Option.some.injEq, forall_eq']
      unfold profile
      simp only [dialable_ensureId]
      rw [← portValue_iff]
      constructor
      · intro hdial _
        obtain ⟨n, hn, hport⟩ := hdial.port
        cases hn
        exact hport
      · intro hport
        exact ⟨⟨_, rfl, hhost⟩, ⟨_, rfl, hne⟩, ⟨_, rfl, hpassword⟩, _, rfl, hport ⟨hhost, hpassword, hne⟩⟩

end ProfileEdit

/-! ## Main result -/

/-- where a profile comes from -/
inductive Entrance where
  | url (text : JsString)
  | body (subscriptionId text : JsString)
  | form (f : ProfileEdit)

/-- the profiles that are given to the store -/
def Entrance.stored (newId : ℕ → JsString) : Entrance → List JsProfile
  | .url text => (parseUrl text).toList.map fun p => p.toJs.ensureId (newId 0)
  | .body subscriptionId text => (SubscriptionBody.parseSubscriptionBody newId subscriptionId text).getD []
  | .form f => (f.save (newId 0)).toList

/-- a document has no well-formed entry with another type or a port out of range, and a form no such port -/
def Entrance.Ok : Entrance → Prop
  | .url _ => True
  | .body _ text => SubscriptionBody.DocumentOk text
  | .form f => f.Filled → PortText f.remotePort

/-- **What is stored can be dialled exactly when the input is fine.** -/
theorem stored_dialable_iff (newId : ℕ → JsString) (e : Entrance) :
    (∀ p ∈ e.stored newId, p.Dialable ∧ PassesPortCheck p) ↔ e.Ok := by
  have hport : (∀ p ∈ e.stored newId, p.Dialable ∧ PassesPortCheck p) ↔ ∀ p ∈ e.stored newId, p.Dialable :=
    ⟨fun h p hp => (h p hp).1, fun h p hp => ⟨h p hp, dialable_port (h p hp)⟩⟩
  rw [hport]
  cases e with
  | url text =>
    refine iff_of_true ?_ trivial
    intro p hp
    obtain ⟨q, hq, rfl⟩ := List.mem_map.1 hp
    exact dialable_ensureId.2 (dialable_toJs (parseUrl_some (Option.mem_toList.1 hq)).2.2)
  | body subscriptionId text => exact SubscriptionBody.body_dialable_iff newId subscriptionId text
  | form f =>
    unfold Entrance.stored Entrance.Ok
    simp only [Option.mem_toList]
    exact f.save_dialable_iff (newId 0)

/-- a form that is filled in, with this port -/
def testForm (port : String) : ProfileEdit where
  profileId := []
  name := []
  host := js "a.example"
  remotePort := js port
  password := js "p"
  methodIndex := 1
  methodCustom := []
  routeIndex := 0
  pluginOptions := [js "none", js "obfs-local", js "v2ray-plugin"]
  pluginIndex := 0
  pluginOpts := []
  editedProfile := none

/-- **A port that is too large.** -/
theorem undialable : ¬ ∀ (newId : ℕ → JsString) (e : Entrance), ∀ p ∈ e.stored newId, p.Dialable ∧ PassesPortCheck p := by
  intro h
  have hstored := h (fun _ => js "id") (.form (testForm "70000"))
  have hdial := ((testForm "70000").save_dialable_iff (js "id")).1 fun p hp => (hstored p (Option.mem_toList.2 hp)).1
  have hfilled : (testForm "70000").Filled := ⟨by decide, by decide, js "aes-256-gcm", rfl, by decide⟩
  have hparse : parseInt (testForm "70000").remotePort = some 70000 := by decide
  have := hdial hfilled 70000 hparse
  omega

end ShadowsocksOhos
