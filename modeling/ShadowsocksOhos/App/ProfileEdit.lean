/-
The profile editor (`pages/ProfileEdit.ets`): the content of the form, and the profile that `save` gives to the store.

- `portValue_iff`: the port is in range exactly when the number in front of the text is, or is 0, or there is none.
-/
import ShadowsocksOhos.App.JsValue

namespace ShadowsocksOhos

/-! ## The form -/

def METHODS : List JsString :=
  [js "aes-128-gcm", js "aes-256-gcm", js "chacha20-ietf-poly1305", js "2022-blake3-aes-128-gcm",
    js "2022-blake3-aes-256-gcm", js "2022-blake3-chacha20-poly1305"]

def ALL_ROUTES : List JsString :=
  [ROUTE_ALL, js "bypass-lan", js "bypass-china", js "bypass-lan-china", js "gfwlist", js "china-list"]

structure ProfileEdit where
  profileId : JsString
  name : JsString
  host : JsString
  /-- the text of the port -/
  remotePort : JsString
  password : JsString
  /-- negative for `methodCustom` -/
  methodIndex : ℤ
  methodCustom : JsString
  routeIndex : ℕ
  pluginOptions : List JsString
  /-- one of the options is selected -/
  pluginIndex : Fin pluginOptions.length
  pluginOpts : JsString
  editedProfile : Option JsProfile

/-- `Number.parseInt(text, 10) || 8388` -/
def portValue (text : JsString) : JsNumber :=
  match parseInt text with
  | some n => if n = 0 then .finite 8388 else toJsNumber (n < 0) |(n : ℚ)|
  | none => .finite 8388

namespace ProfileEdit

/-- an index without a method gives undefined -/
def selectedMethod (f : ProfileEdit) : Option JsString :=
  if 0 ≤ f.methodIndex then METHODS[f.methodIndex.toNat]? else some (jsTrim f.methodCustom)

/-- the profile of the form; the fields that it does not have are those of the edited profile, or of a new one -/
def profile (newId : JsString) (f : ProfileEdit) (method : JsString) : JsProfile :=
  let existing := f.editedProfile.getD ({} : Profile).toJs
  let plugin := f.pluginOptions.get f.pluginIndex
  JsProfile.ensureId newId {
    id := .str f.profileId
    name := .str (if jsTrim f.name ≠ [] then jsTrim f.name else jsTrim f.host)
    host := .str (jsTrim f.host)
    remotePort := .num (portValue f.remotePort)
    password := .str f.password
    method := .str method
    route := .str ((ALL_ROUTES[f.routeIndex]?).getD ROUTE_ALL)
    subscriptionId := existing.subscriptionId
    localAddress := existing.localAddress
    localPort := existing.localPort
    plugin := .str (if plugin = js "none" then [] else plugin)
    pluginOpts := .str (jsTrim f.pluginOpts) }

/-- `save`: the profile that reaches `upsert`, if any does; the length of undefined throws -/
def save (newId : JsString) (f : ProfileEdit) : Option JsProfile :=
  match f.selectedMethod with
  | some method =>
    if jsTrim f.host = [] ∨ f.password = [] ∨ method = [] then none else some (f.profile newId method)
  | none => none

end ProfileEdit

/-! ## Ports -/

/-- an integer from 1 to 65535 -/
def JsNumber.IsPort (n : JsNumber) : Prop := ∃ m : ℕ, n = .finite m ∧ 1 ≤ m ∧ m ≤ 65535

/-- the number in front of the text is in range, or the default takes its place -/
def PortText (text : JsString) : Prop := ∀ n, parseInt text = some n → n = 0 ∨ (1 ≤ n ∧ n ≤ 65535)

theorem isPort_finite {q : ℚ} : (JsNumber.finite q).IsPort ↔ ∃ m : ℕ, q = m ∧ 1 ≤ m ∧ m ≤ 65535 := by
  unfold JsNumber.IsPort
  simp only [JsNumber.finite.injEq]

theorem isPort_int (n : ℤ) : (JsNumber.finite n).IsPort ↔ 1 ≤ n ∧ n ≤ 65535 := by
  rw [isPort_finite]
  constructor
  · rintro ⟨m, hm, h1, h2⟩
    have hn : n = m := by exact_mod_cast hm
    omega
  · intro h
    refine ⟨n.toNat, ?_, by omega, by omega⟩
    have hn : ((n.toNat : ℤ) : ℚ) = n := by rw [Int.toNat_of_nonneg (by omega)]
    exact_mod_cast hn.symm

theorem signed_abs (n : ℤ) : (if decide (n < 0) = true then -|(n : ℚ)| else |(n : ℚ)|) = n := by
  by_cases h : n < 0
  · rw [if_pos (decide_eq_true h), abs_of_neg (by exact_mod_cast h), neg_neg]
  · rw [if_neg (by simpa using h), abs_of_nonneg (by exact_mod_cast not_lt.1 h)]

/-- an integer keeps its side of the range, even where it is rounded -/
theorem isPort_rounded (n : ℤ) : (toJsNumber (n < 0) |(n : ℚ)|).IsPort ↔ 1 ≤ n ∧ n ≤ 65535 := by
  unfold toJsNumber
  rw [signed_abs]
  by_cases hlt : n.natAbs < 2 ^ 53
  · rw [show Binary64.nearest (n : ℚ) = some (n : ℚ) from Binary64.isDouble_int hlt]
    exact isPort_int n
  · -- what is rounded is far out of range, before and after
    refine iff_of_false ?_ (by omega)
    cases hx : Binary64.nearest (n : ℚ) with
    | none => exact fun ⟨m, hm, _⟩ => nomatch hm
    | some x =>
      have hlarge := Binary64.nearest_large (not_lt.1 hlt) hx
      intro hport
      obtain ⟨m, hm, -, hle⟩ := isPort_finite.1 hport
      rw [hm, Nat.abs_cast] at hlarge
      have hmle : (m : ℚ) ≤ 65535 := by exact_mod_cast hle
      have := hlarge.trans hmle
      norm_num at this

/-- **The port of the form.** -/
theorem portValue_iff (text : JsString) : (portValue text).IsPort ↔ PortText text := by
  have hdefault : (JsNumber.finite 8388).IsPort := ⟨8388, by norm_num, by decide, by decide⟩
  unfold portValue PortText
  cases hparse : parseInt text with
  | none => exact iff_of_true hdefault nofun
  | some n =>
    simp only [Option.some.injEq, forall_eq']
    by_cases hzero : n = 0
    · rw [if_pos hzero]
      exact iff_of_true hdefault (Or.inl hzero)
    · rw [if_neg hzero, isPort_rounded, or_iff_right hzero]

end ShadowsocksOhos
