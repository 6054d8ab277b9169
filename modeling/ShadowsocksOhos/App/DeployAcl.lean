/-
The rules of a route (`Routes.ets`, and `deployAcl` of `SsVpnExtensionAbility.ets`). They are a raw file of the app, and the
core reads them from a file of its directory, which is written anew whenever the extension starts. Each call may throw,
`writeSync` may store fewer bytes than it was given, and the process may die.
- `aclFileForRoute_injective`: no two routes share a file.
- `deployAcl_spec`: what one deployment does.
- `rules_deployed`: over every history of deployments.
-/
import ShadowsocksOhos.App.JsonWrite
import ShadowsocksOhos.App.ProfileEdit

namespace ShadowsocksOhos

open JsonStore (Ends)

/-! ## Routes -/

def ROUTE_BYPASS_LAN : JsString := js "bypass-lan"
def ROUTE_BYPASS_CHINA : JsString := js "bypass-china"
def ROUTE_BYPASS_LAN_CHINA : JsString := js "bypass-lan-china"
def ROUTE_GFWLIST : JsString := js "gfwlist"
def ROUTE_CHINA_LIST : JsString := js "china-list"

/-- the raw file of a route's rules, or the empty string -/
def aclFileForRoute (route : JsString) : JsString :=
  if route = ROUTE_BYPASS_LAN then js "bypass-lan.acl"
  else if route = ROUTE_BYPASS_CHINA then js "bypass-china.acl"
  else if route = ROUTE_BYPASS_LAN_CHINA then js "bypass-lan-china.acl"
  else if route = ROUTE_GFWLIST then js "gfwlist.acl"
  else if route = ROUTE_CHINA_LIST then js "china-list.acl"
  else []

/-- the route has rules -/
def Ruled (route : JsString) : Prop := aclFileForRoute route ≠ []

instance (route : JsString) : Decidable (Ruled route) := inferInstanceAs (Decidable (_ ≠ _))

/-- all routes that the editor offers but the first one -/
theorem ruled_iff {route : JsString} : Ruled route ↔ route ∈ ALL_ROUTES ∧ route ≠ ROUTE_ALL := by
  constructor
  · intro h
    unfold Ruled aclFileForRoute at h
    split_ifs at h with h1 h2 h3 h4 h5
    · exact h1 ▸ by decide
    · exact h2 ▸ by decide
    · exact h3 ▸ by decide
    · exact h4 ▸ by decide
    · exact h5 ▸ by decide
    · exact absurd rfl h
  · rintro ⟨hmem, hne⟩
    unfold ALL_ROUTES at hmem
    simp only [List.mem_cons, List.not_mem_nil, or_false] at hmem
    rcases hmem with rfl | rfl | rfl | rfl | rfl | rfl
    · exact absurd rfl hne
    all_goals decide

/-- **No two routes share a file.** -/
theorem aclFileForRoute_injective {route other : JsString} (h : Ruled route)
    (heq : aclFileForRoute route = aclFileForRoute other) : route = other := by
  have hother : Ruled other := by
    unfold Ruled at h ⊢
    rwa [← heq]
  have hall : ∀ r ∈ ALL_ROUTES, ∀ r' ∈ ALL_ROUTES, r ≠ ROUTE_ALL → aclFileForRoute r = aclFileForRoute r' → r = r' := by
    refine forall_mem_of_all ?_
    decide
  exact hall route (ruled_iff.1 h).1 other (ruled_iff.1 hother).1 (ruled_iff.1 h).2 heq

/-! ## deployAcl -/

/-- how the calls of a deployment end; `mkdirSync` is allowed to throw -/
structure AclCalls where
  getRawFileContent : Ends
  openSync : Ends
  writeSync : Ends
  /-- how many bytes `writeSync` stores, however it ends -/
  stored : ℕ
  closeSync : Ends
deriving DecidableEq, Repr

def AclCalls.Return (c : AclCalls) : Prop :=
  c.getRawFileContent = .returns ∧ c.openSync = .returns ∧ c.writeSync = .returns ∧ c.closeSync = .returns

instance (c : AclCalls) : Decidable c.Return := inferInstanceAs (Decidable (_ ∧ _))

/-- every call returns, and this many bytes are stored -/
def AclCalls.storing (n : ℕ) : AclCalls := ⟨.returns, .returns, .returns, n, .returns⟩

section Deploy

-- `this.context.filesDir`, and the content of `acl/` of the raw files
variable (filesDir : JsString) (rawFile : JsString → List UInt8)

/-- where the rules of a route are put -/
def aclDest (route : JsString) : JsString := filesDir ++ js "/acl" ++ js "/" ++ aclFileForRoute route

/-- the path that is returned, unless the process dies, and the files -/
def deployAcl (c : AclCalls) (route : JsString) (fs : Files JsString) : Option JsString × Files JsString :=
  if route = ROUTE_ALL then (some [], fs)
  else if aclFileForRoute route = [] then (some [], fs)
  else
    match c.getRawFileContent, c.openSync with
    | .dies, _ => (none, fs)
    | .throws, _ => (some [], fs)
    | .returns, .dies => (none, fs)
    | .returns, .throws => (some [], fs)
    | .returns, .returns =>
      let (fs, fd) := fs.openTrunc (aclDest filesDir route)
      let fs := fs.write fd ((rawFile (aclFileForRoute route)).take c.stored)
      match c.writeSync, c.closeSync with
      | .dies, _ => (none, fs)
      -- the file is closed in any case
      | _, .dies => (none, fs)
      | .returns, .returns => (some (aclDest filesDir route), fs)
      | _, _ => (some [], fs)

/-- the rules of a route, as far as they have been stored -/
def stored (c : AclCalls) (route : JsString) : List UInt8 := (rawFile (aclFileForRoute route)).take c.stored

theorem aclDest_injective {route other : JsString} (h : Ruled route) (heq : aclDest filesDir route = aclDest filesDir other) :
    route = other :=
  aclFileForRoute_injective h (List.append_cancel_left heq)

theorem aclDest_ne (route : JsString) : aclDest filesDir route ≠ [] := by
  unfold aclDest
  intro h
  have hslash : js "/" = [] := (List.append_eq_nil_iff.1 (List.append_eq_nil_iff.1 h).1).2
  exact absurd hslash (by decide)

/-- a deployment leaves the files as they are, or writes one -/
theorem deployAcl_files (c : AclCalls) (route : JsString) (fs : Files JsString) :
    (deployAcl filesDir rawFile c route fs).2 = fs ∨ Ruled route ∧
      (deployAcl filesDir rawFile c route fs).2 = fs.spool (aclDest filesDir route) (stored rawFile c route) := by
  unfold deployAcl
  split_ifs with hall hfile
  · exact Or.inl rfl
  · exact Or.inl rfl
  · split
    · exact Or.inl rfl
    · exact Or.inl rfl
    · exact Or.inl rfl
    · exact Or.inl rfl
    · right
      refine ⟨hfile, ?_⟩
      dsimp only
      split <;> rfl

theorem deployAcl_returns {c : AclCalls} {route : JsString} (h : Ruled route ∧ c.Return) (fs : Files JsString) :
    deployAcl filesDir rawFile c route fs =
      (some (aclDest filesDir route), fs.spool (aclDest filesDir route) (stored rawFile c route)) := by
  obtain ⟨hruled, hraw, hopen, hwrite, hclose⟩ := h
  unfold deployAcl
  rw [if_neg (ruled_iff.1 hruled).2, if_neg hruled, hraw, hopen, hwrite, hclose]
  rfl

/-- no path is returned -/
theorem deployAcl_fails {c : AclCalls} {route : JsString} (h : ¬ (Ruled route ∧ c.Return)) (fs : Files JsString) :
    (deployAcl filesDir rawFile c route fs).1 = some [] ∨ (deployAcl filesDir rawFile c route fs).1 = none := by
  unfold deployAcl
  split_ifs with hall hfile
  · exact Or.inl rfl
  · exact Or.inl rfl
  · have hnot : ¬ c.Return := fun hc => h ⟨hfile, hc⟩
    obtain ⟨raw, opened, wrote, n, closed⟩ := c
    unfold AclCalls.Return at hnot
    cases raw <;> cases opened <;> cases wrote <;> cases closed <;> simp at hnot ⊢

/-- every file holds the first bytes of the rules of its own route -/
structure OwnRules (fs : Files JsString) : Prop where
  separate : fs.Separate
  own : ∀ route, Ruled route → ∀ bytes, fs.bytesAt (aclDest filesDir route) = some bytes →
    bytes <+: rawFile (aclFileForRoute route)

theorem ownRules_empty : OwnRules filesDir rawFile ⟨[], []⟩ :=
  ⟨Files.separate_empty, fun _ _ _ h => nomatch h⟩

variable {filesDir rawFile}

/-- what one deployment does to the file of a route -/
theorem deployAcl_spec {fs : Files JsString} (h : OwnRules filesDir rawFile fs) (c : AclCalls) (route : JsString) :
    OwnRules filesDir rawFile (deployAcl filesDir rawFile c route fs).2 ∧
      ∀ path, path ≠ aclDest filesDir route → (deployAcl filesDir rawFile c route fs).2.bytesAt path = fs.bytesAt path := by
  rcases deployAcl_files filesDir rawFile c route fs with hsame | ⟨hruled, hfiles⟩
  · rw [hsame]
    exact ⟨h, fun _ _ => rfl⟩
  · obtain ⟨hseparate, hwritten, hother⟩ := Files.spool_spec h.separate (aclDest filesDir route) (stored rawFile c route)
    rw [hfiles]
    refine ⟨⟨hseparate, fun other hruled' bytes hbytes => ?_⟩, hother⟩
    by_cases heq : aclDest filesDir other = aclDest filesDir route
    · rw [heq, hwritten] at hbytes
      cases hbytes
      rw [aclDest_injective filesDir hruled' heq]
      exact List.take_prefix _ _
    · rw [hother _ heq] at hbytes
      exact h.own other hruled' bytes hbytes

/-- the core is told of a path exactly when there is one, and the route is not the first one -/
theorem toTunConfig_acl {p : JsProfile} {route aclPath : JsString} (hroute : p.route = .str route) {config : JsValue}
    (h : p.toTunConfig aclPath = some config) :
    config.prop (js "acl") = some (if route ≠ ROUTE_ALL ∧ aclPath ≠ [] then some (.str aclPath) else none) := by
  unfold JsProfile.toTunConfig at h
  simp only [Option.bind_eq_bind, Option.bind_eq_some_iff, hroute, decide_eq_true_eq] at h
  obtain ⟨withPlugin, -, hconfig⟩ := h
  cases hconfig
  cases withPlugin <;> by_cases hacl : route ≠ ROUTE_ALL ∧ aclPath ≠ []
  · rw [if_pos hacl, if_pos hacl]
    rfl
  · rw [if_neg hacl, if_neg hacl]
    rfl
  · rw [if_pos hacl, if_pos hacl]
    rfl
  · rw [if_neg hacl, if_neg hacl]
    rfl

/-! ## Main result -/

/-- the files after these deployments, one after another -/
def deployed (filesDir : JsString) (rawFile : JsString → List UInt8) (history : List (AclCalls × JsString)) : Files JsString :=
  history.foldl (fun fs d => (deployAcl filesDir rawFile d.1 d.2 fs).2) ⟨[], []⟩

theorem ownRules_deployed (history : List (AclCalls × JsString)) :
    OwnRules filesDir rawFile (deployed filesDir rawFile history) := by
  have hrun : ∀ fs : Files JsString, OwnRules filesDir rawFile fs →
      OwnRules filesDir rawFile (history.foldl (fun fs d => (deployAcl filesDir rawFile d.1 d.2 fs).2) fs) := by
    induction history with
    | nil => exact fun fs h => h
    | cons d history ih => exact fun fs h => ih _ (deployAcl_spec h d.1 d.2).1
  exact hrun _ (ownRules_empty filesDir rawFile)

/-- **The rules of the route.** After every history of deployments, whatever calls failed in them and wherever the process
died, and for every way in which the calls of one more deployment end:
- the core is told of a path exactly when the route has rules and every call returns, and then finds there what has been
stored of the rules of this route, all of them if nothing was cut off;
- every file of a route holds the first bytes of the rules of that route and of no other;
- the files of the other routes stay as they are. -/
theorem rules_deployed (filesDir : JsString) (rawFile : JsString → List UInt8) (history : List (AclCalls × JsString))
    (c : AclCalls) (route : JsString) :
    let fs := deployed filesDir rawFile history
    let r := deployAcl filesDir rawFile c route fs
    (∀ path, r.1 = some path → ∀ (p : JsProfile) config, p.route = .str route → p.toTunConfig path = some config →
      config.prop (js "acl") = some (if Ruled route ∧ c.Return then some (.str path) else none) ∧
        (Ruled route ∧ c.Return → r.2.bytesAt path = some ((rawFile (aclFileForRoute route)).take c.stored))) ∧
    (∀ other, Ruled other → ∀ bytes, r.2.bytesAt (aclDest filesDir other) = some bytes →
      bytes <+: rawFile (aclFileForRoute other)) ∧
    ∀ other, Ruled other → other ≠ route → r.2.bytesAt (aclDest filesDir other) = fs.bytesAt (aclDest filesDir other) := by
  intro fs r
  have hown : OwnRules filesDir rawFile fs := ownRules_deployed history
  obtain ⟨hown', hother⟩ := deployAcl_spec hown c route
  refine ⟨fun path hpath p config hroute hconfig => ?_, hown'.own, fun other hruled hne => ?_⟩
  · rw [toTunConfig_acl hroute hconfig]
    by_cases h : Ruled route ∧ c.Return
    · have hr : r = _ := deployAcl_returns filesDir rawFile h fs
      rw [hr] at hpath
      cases hpath
      rw [if_pos h, if_pos ⟨(ruled_iff.1 h.1).2, aclDest_ne filesDir route⟩, hr]
      exact ⟨rfl, fun _ => (Files.spool_spec hown.separate _ _).2.1⟩
    · have hnil : path = [] := by
        rcases deployAcl_fails filesDir rawFile h fs with hempty | hnone
        · exact (Option.some.inj (hempty.symm.trans hpath)).symm
        · exact nomatch hnone.symm.trans hpath
      rw [if_neg h, if_neg fun hacl => hacl.2 hnil]
      exact ⟨rfl, fun hc => absurd hc h⟩
  · exact hother _ fun heq => hne (aclDest_injective filesDir hruled heq)

/-- rules of ten bytes, each the length of the name of the file -/
def sampleRules (file : JsString) : List UInt8 := List.replicate 10 (UInt8.ofNat file.length)

/-- a deployment that is cut off after three bytes, and one in which the process dies; then the first route again, in full -/
theorem rules_deployed_again :
    let fs := deployed (js "/data") sampleRules
      [(.storing 3, ROUTE_GFWLIST), (⟨.returns, .returns, .dies, 2, .returns⟩, ROUTE_CHINA_LIST)]
    let r := deployAcl (js "/data") sampleRules (.storing 10) ROUTE_GFWLIST fs
    fs.bytesAt (js "/data/acl/gfwlist.acl") = some (List.replicate 3 11) ∧
      r.1 = some (js "/data/acl/gfwlist.acl") ∧
      r.2.bytesAt (js "/data/acl/gfwlist.acl") = some (List.replicate 10 11) ∧
      r.2.bytesAt (js "/data/acl/china-list.acl") = some (List.replicate 2 14) := by
  intro fs r
  have hpath : r.1 = some (js "/data/acl/gfwlist.acl") := by decide +kernel
  have hrules := rules_deployed (js "/data") sampleRules
    [(.storing 3, ROUTE_GFWLIST), (⟨.returns, .returns, .dies, 2, .returns⟩, ROUTE_CHINA_LIST)] (.storing 10) ROUTE_GFWLIST
  obtain ⟨config, hconfig⟩ : ∃ config,
      ({ route := ROUTE_GFWLIST : Profile }).toJs.toTunConfig (js "/data/acl/gfwlist.acl") = some config := ⟨_, rfl⟩
  have hwhole := (hrules.1 _ hpath _ config rfl hconfig).2 (by decide)
  refine ⟨by decide +kernel, hpath, hwhole.trans (by decide +kernel), by decide +kernel⟩

end Deploy

end ShadowsocksOhos
