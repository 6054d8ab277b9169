/-
What an edit of a stored profile changes.

- `edited`: an untouched form is saved as it was loaded, with the exceptions that the page makes, and a change of the form
changes one field.
- `unchanged_iff`: exactly when nothing changes.
- `renamed`: a link with a blank name.
-/
import ShadowsocksOhos.App.StoredProfiles

namespace ShadowsocksOhos

open ProfileFile (strictEq placed)
open JsProfileEdit

/-! ## The list -/

/-- `upsert` writes the list with the one profile in place of the other, which `JSON.parse` reads back -/
def Replaces (profiles : List JsProfile) (p q : JsProfile) : Prop := ∃ before after, profiles = before ++ p :: after ∧
  ∀ (stringify : JsValue → JsString) (fails : ℕ → ProfileFile.Call → Bool) (newId : JsString) (fs : ProfileFile.Disk),
    ProfileFile.getAll (fails 0) fs = profiles →
      ProfileFile.upsert stringify fails newId q fs = ProfileFile.saveAll stringify (before ++ q :: after) fs ∧
      let written := JsValue.arr ((before ++ q :: after).map ProfileFile.toJson)
      (fs.Separate → jsonParse (stringify written) = some written.reread → ∀ later, ProfileFile.Succeeds later →
        ProfileFile.getAll later (ProfileFile.upsert stringify fails newId q fs) =
          (before ++ q :: after).map JsProfile.reread)

theorem strictEq_str {v : JsValue} {s : JsString} (h : strictEq v (.str s) = true) : v = .str s := by
  cases v with
  | str t => exact congrArg JsValue.str (of_decide_eq_true h)
  | null | bool b | num n | arr items | obj fields => cases h

theorem replaces_found {profiles : List JsProfile} {p q : JsProfile} {id : JsString} (hne : id ≠ [])
    (hfind : profiles.find? (fun p => strictEq p.id (.str id)) = some p) (hq : q.id = .str id) : Replaces profiles p q := by
  obtain ⟨hp, before, after, rfl, hbefore⟩ := List.find?_eq_some_iff_append.1 hfind
  refine ⟨before, after, rfl, ?_⟩
  intro stringify fails newId fs hget
  have hplaced : placed q (before ++ p :: after) = before ++ q :: after := by
    have hindex : (before ++ p :: after).findIdx? (fun p => strictEq p.id (.str id)) = some before.length := by
      have hnone : before.findIdx? (fun p => strictEq p.id (.str id)) = none := by
        rw [List.findIdx?_eq_none_iff]
        intro r hr
        simpa using hbefore r hr
      rw [List.findIdx?_append, hnone, List.findIdx?_cons, if_pos hp]
      simp
    unfold placed
    rw [hq, hindex]
    simp
  have hwritten : ProfileFile.upsert stringify fails newId q fs =
      ProfileFile.saveAll stringify (before ++ q :: after) fs := by
    unfold ProfileFile.upsert
    simp only [ensureId_str hne hq, hget, hplaced]
  refine ⟨hwritten, fun hseparate hread later hlater => ?_⟩
  rw [hwritten]
  exact getAll_saveAll hseparate hread hlater

/-- the page with the id of a stored profile -/
theorem found_load {id : JsString} {profiles : List JsProfile} {p : JsProfile}
    (hfind : profiles.find? (fun p => strictEq p.id (.str id)) = some p) (hstored : Stored p) :
    p.id = .str id ∧ id ≠ [] ∧ Regular p ∧ aboutToAppear id profiles = load id p := by
  have hid := strictEq_str (List.find?_eq_some_iff_append.1 hfind).1
  obtain ⟨hregular, id', hid', hne⟩ := stored_regular hstored
  rw [hid, JsValue.str.injEq] at hid'
  subst hid'
  refine ⟨hid, hne, hregular, ?_⟩
  unfold aboutToAppear
  rw [if_neg hne, hfind]

/-- **An edit of a stored profile.** Untouched, the form is saved unless the editor asks for a host, a password or a method,
and every field of the profile is carried over; a change of the form changes no other field of it. -/
theorem edited {id : JsString} {profiles : List JsProfile} {p : JsProfile}
    (hfind : profiles.find? (fun p => strictEq p.id (.str id)) = some p) (hstored : Stored p) (hdeclared : Declared p)
    (newId : JsString) : ∃ page, aboutToAppear id profiles = some page ∧
      ((∃ q, page.save newId = some q) ↔ ¬ Refused p) ∧
      (∀ q, page.save newId = some q → Replaces profiles p q ∧ ∀ k, Carried p q k) ∧
      ∀ edit q, (Edit.apply page edit).save newId = some q → ∀ k, k ≠ edit.field → Carried p q k := by
  obtain ⟨hid, hne, hregular, hload⟩ := found_load hfind hstored
  obtain ⟨page, hpage⟩ := load_isSome id hregular hdeclared
  have hshows := load_shows hpage hid hne hregular hdeclared
  have hpageId : page.profileId ≠ [] := (hshows .id).2 ▸ hne
  refine ⟨page, hload.trans hpage, load_save_iff newId hpage hregular hdeclared, ?_, ?_⟩
  · intro q hq
    have hcarried := fun k => save_carried hq hpageId (hshows k).1
    exact ⟨replaces_found hne hfind ((hcarried .id).trans hid), hcarried⟩
  · intro edit q hq k hk
    refine save_carried hq ?_ (shows_apply hk (hshows k).1)
    rw [(apply_fixed page edit).1]
    exact hpageId

/-- the profile of a link with this name, as it is stored -/
def linked (name : JsString) : JsProfile where
  id := .str (newProfileId fun _ => 0)
  name := .str name
  host := .str (js "c")
  remotePort := .num (.finite 1)
  password := .str (js "b")
  method := .str (js "a")
  route := .str ROUTE_ALL
  subscriptionId := .str []
  localAddress := .str (js "127.0.0.1")
  localPort := .num (.finite DEFAULT_SOCKS_PORT)
  plugin := .str []
  pluginOpts := .str []

theorem stored_linked {link name : JsString} (h : parseUrl link =
    some { name := name, host := js "c", remotePort := 1, password := js "b", method := js "a" }) : Stored (linked name) := by
  have hmem : linked name ∈ (Entrance.url link).stored fun _ => newProfileId fun _ => 0 := by
    simp only [Entrance.stored, h]
    exact List.mem_singleton.2 rfl
  exact .entrance (fun _ _ => 0) (.url link) hmem

theorem find_linked (name : JsString) :
    [linked name].find? (fun p => strictEq p.id (.str (newProfileId fun _ => 0))) = some (linked name) := by
  simp [linked, strictEq]

theorem declared_linked (name : JsString) : Declared (linked name) :=
  ⟨⟨_, rfl⟩, ⟨_, rfl⟩, ⟨_, rfl⟩, 1, by simp [linked], by decide⟩

/-- a link with a name -/
theorem edited_link : ∃ page, aboutToAppear (newProfileId fun _ => 0) [linked (js "n")] = some page ∧
    ((∃ q, page.save [] = some q) ↔ ¬ Refused (linked (js "n"))) ∧
    (∀ q, page.save [] = some q → Replaces [linked (js "n")] (linked (js "n")) q ∧ ∀ k, Carried (linked (js "n")) q k) ∧
    ∀ edit q, (Edit.apply page edit).save [] = some q → ∀ k, k ≠ edit.field → Carried (linked (js "n")) q k := by
  have hparse : parseUrl (js "ss://YTpi@c:1#n") =
      some { name := js "n", host := js "c", remotePort := 1, password := js "b", method := js "a" } := by decide +kernel
  exact edited (find_linked _) (stored_linked hparse) (declared_linked _) []

/-- an untouched form is saved and nothing changes, and a change of the form changes one field -/
def Faithful (newId : JsString) (profiles : List JsProfile) (p : JsProfile) (page : JsProfileEdit) : Prop :=
  (∃ q, page.save newId = some q ∧ Replaces profiles p q ∧ ∀ k, Same p q k) ∧
    ∀ edit q, (Edit.apply page edit).save newId = some q → ∀ k, k ≠ edit.field → Same p q k

/-- trimming does not see what has been trimmed -/
theorem trimmed_blank {old new : JsValue} (h : Trimmed old new) (hold : Blank old) : Blank new := by
  obtain ⟨s, rfl, hs⟩ := hold
  rcases h with rfl | ⟨a, t, b, hsplit, rfl, ha, hb⟩
  · exact ⟨s, rfl, hs⟩
  · cases hsplit
    rw [jsTrim_append_space hb, jsTrim_space_append ha] at hs
    exact ⟨t, rfl, hs⟩

theorem same_of_carried {p q : JsProfile} (hname : ¬ Blank p.name) (hplugin : p.plugin ≠ .str (js "none"))
    {k : ProfileField} (h : Carried p q k) : Same p q k := by
  cases k with
  | name => exact h.2 hname
  | plugin => exact h.2 hplugin
  | id | host | remotePort | password | method | route | subscriptionId | localAddress | localPort | pluginOpts => exact h

/-- a port that has been read back from its text -/
theorem port_shown {p : JsProfile} {text : JsString} (hr : Regular p) (htext : p.remotePort.toText = some text)
    (hport : p.remotePort = .num (portValue text)) : ∃ n : ℤ, p.remotePort = .num (.finite n) ∧ n.natAbs < 10 ^ 21 := by
  cases hvalue : portValue text with
  | finite x =>
    rw [hvalue] at hport
    obtain ⟨hdouble, hx⟩ := hr.port x hport
    rw [hport, JsValue.toText, Option.some.injEq] at htext
    rw [← htext] at hvalue
    obtain ⟨n, rfl, hn⟩ := (portValue_numberText_iff hdouble hx).1 hvalue
    exact ⟨n, hport, hn⟩
  | infinite negative =>
    -- the name of an infinite number is no number
    have hdefault : portValue (numberText (.infinite negative)) = .finite 8388 := by cases negative <;> decide +kernel
    rw [hvalue] at hport
    rw [hport, JsValue.toText, Option.some.injEq] at htext
    rw [← htext, hdefault] at hvalue
    cases hvalue

/-- what was saved says what was loaded -/
theorem same_declared {newId id : JsString} {p q : JsProfile} {page : JsProfileEdit} (hid : id ≠ []) (hr : Regular p)
    (hload : load id p = some page) (hq : page.save newId = some q) (hsame : ∀ k, Same p q k) :
    Declared p ∧ ¬ Refused p ∧ ¬ Blank p.name ∧ p.plugin ≠ .str (js "none") := by
  have hl := load_loaded hload
  obtain ⟨method, name, host, opts, hselected, hname, hhost, -, hhostne, hpassword, hmethodne, hqeq⟩ := save_some hq
  rw [ensureId_str (hl.profileId ▸ hid) rfl] at hqeq
  rw [hl.name] at hname
  rw [hl.host] at hhost
  rw [hl.password] at hpassword
  have hmethod : ∃ t, p.method = .str t ∧ jsTrim t ≠ [] := by
    rcases load_method hload with ⟨preset, hpreset, hp, -⟩ | hcustom
    · exact ⟨preset, hp, (preset_ne preset hpreset).2⟩
    · obtain ⟨t, ht, rfl⟩ := trimmed_some (hcustom.symm.trans hselected)
      exact ⟨t, ht, hmethodne⟩
  obtain ⟨m, hm, hmne⟩ := hmethod
  have hport : p.remotePort = .num (portValue page.remotePort) := by
    have hkept : q.remotePort = p.remotePort := hsame .remotePort
    rw [hqeq] at hkept
    exact hkept.symm
  refine ⟨⟨⟨name, hname⟩, ⟨host, hhost⟩, ⟨m, hm⟩, port_shown hr hl.remotePort hport⟩, ?_, ?_, ?_⟩
  · unfold Refused
    rw [hhost, hm, hpassword, blank_str, blank_str]
    simp [hhostne, hmne]
  · -- the host that has taken the place of a blank name is not blank
    intro hblank
    have hnew : Blank q.name := trimmed_blank (hsame .name) hblank
    rw [hname, blank_str] at hblank
    rw [hqeq] at hnew
    simp only [hblank, ne_eq, not_true_eq_false, if_false, blank_str, jsTrim_jsTrim] at hnew
    exact hhostne hnew
  · intro hnone
    have hkept : q.plugin = p.plugin := hsame .plugin
    rw [hqeq] at hkept
    simp only [load_plugin hload hnone, if_true, hnone, JsValue.str.injEq] at hkept
    exact absurd hkept (by decide)

/-- **Nothing changes exactly when** the fields have the declared types and the port no exponent, the host, the password and
the method are there, the name is not blank, and the plugin is not the one that stands for none. -/
theorem unchanged_iff {id : JsString} {profiles : List JsProfile} {p : JsProfile}
    (hfind : profiles.find? (fun p => strictEq p.id (.str id)) = some p) (hstored : Stored p) (newId : JsString)
    {page : JsProfileEdit} (hpage : aboutToAppear id profiles = some page) :
    Faithful newId profiles p page ↔ Declared p ∧ ¬ Refused p ∧ ¬ Blank p.name ∧ p.plugin ≠ .str (js "none") := by
  obtain ⟨hid, hne, hregular, hload⟩ := found_load hfind hstored
  rw [hload] at hpage
  constructor
  · rintro ⟨⟨q, hq, -, hsame⟩, -⟩
    exact same_declared hne hregular hpage hq hsame
  · rintro ⟨hdeclared, hfilled, hname, hplugin⟩
    have hshows := load_shows hpage hid hne hregular hdeclared
    have hpageId : page.profileId ≠ [] := (hshows .id).2 ▸ hne
    refine ⟨?_, ?_⟩
    · obtain ⟨q, hq⟩ := (load_save_iff newId hpage hregular hdeclared).2 hfilled
      have hcarried := fun k => save_carried hq hpageId (hshows k).1
      exact ⟨q, hq, replaces_found hne hfind ((hcarried .id).trans hid),
        fun k => same_of_carried hname hplugin (hcarried k)⟩
    · intro edit q hq k hk
      refine same_of_carried hname hplugin (save_carried hq ?_ (shows_apply hk (hshows k).1))
      rw [(apply_fixed page edit).1]
      exact hpageId

/-- **A blank name**: the link has one, and a save gives the profile the name of its host. -/
theorem renamed : ¬ ∀ (id : JsString) (profiles : List JsProfile) (p : JsProfile) (newId : JsString) (page : JsProfileEdit),
    profiles.find? (fun p => strictEq p.id (.str id)) = some p → Stored p → aboutToAppear id profiles = some page →
    Faithful newId profiles p page := by
  intro h
  have hparse : parseUrl (js "ss://YTpi@c:1#%20") =
      some { name := js " ", host := js "c", remotePort := 1, password := js "b", method := js "a" } := by decide +kernel
  have hstored := stored_linked hparse
  have hfind := find_linked (js " ")
  obtain ⟨-, -, hregular, hload⟩ := found_load hfind hstored
  obtain ⟨page, hpage⟩ := load_isSome _ hregular (declared_linked (js " "))
  have hfaithful := h _ _ _ [] page hfind hstored (hload.trans hpage)
  obtain ⟨-, -, hname, -⟩ := (unchanged_iff hfind hstored [] (hload.trans hpage)).1 hfaithful
  exact hname ⟨js " ", rfl, by decide⟩

end ShadowsocksOhos
