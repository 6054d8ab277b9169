/-
The editor as a page (`pages/ProfileEdit.ets`): `aboutToAppear` fills the form from the stored profile with an id, a change
of the form sets one of its fields, and `save` makes the profile that takes the place of the stored one. The fields of a
profile that comes from a document may be of other types than the form expects (`JsProfileEdit`).

- `save_toJs`: on a form of the declared types it is the `save` of `ProfileEdit`.
-/
import ShadowsocksOhos.App.Dialable
import ShadowsocksOhos.App.JsonNumbers
import ShadowsocksOhos.App.NumberText
import ShadowsocksOhos.App.ProfileFile

namespace ShadowsocksOhos

open ProfileFile (strictEq coalesce placed)

/-! ## Values -/

namespace JsValue

mutual

/-- `value.toString()` -/
def toText : JsValue → Option JsString
  | .null => none
  | .bool b => some (if b then js "true" else js "false")
  | .num n => some (numberText n)
  | .str s => some s
  | .arr items => (itemTexts items).map (List.intercalate [unit ','])
  -- a field that hides the method is no function
  | .obj fields => if (Dict.get (js "toString") fields).isNone then some (js "[object Object]") else none

/-- the strings that an array joins -/
def itemTexts : List JsValue → Option (List JsString)
  | [] => some []
  | .null :: vs => (itemTexts vs).map ([] :: ·)
  | v :: vs => do
    let text ← toText v
    (itemTexts vs).map (text :: ·)

end

/-- `value.trim()`, which only a string has -/
def trimmed : JsValue → Option JsString
  | .str s => some (jsTrim s)
  | _ => none

mutual

/-- what `JSON.parse` reads where `JSON.stringify` has written a value: an infinite number is written as null -/
def reread : JsValue → JsValue
  | .num (.infinite _) => .null
  | .arr items => .arr (rereadItems items)
  | .obj fields => .obj (rereadFields fields)
  | v => v

def rereadItems : List JsValue → List JsValue
  | [] => []
  | v :: vs => reread v :: rereadItems vs

def rereadFields : List (JsString × JsValue) → List (JsString × JsValue)
  | [] => []
  | (k, v) :: fields => (k, reread v) :: rereadFields fields

end

end JsValue

/-! ## The page -/

def PLUGINS : List JsString := [js "none", js "obfs-local", js "v2ray-plugin"]

/-- a `ProfileEdit` whose fields were filled from a document -/
structure JsProfileEdit where
  profileId : JsString
  name : JsValue
  host : JsValue
  remotePort : JsString
  password : JsValue
  /-- negative for `methodCustom` -/
  methodIndex : ℤ
  methodCustom : JsValue
  routeIndex : ℕ
  pluginOptions : List JsValue
  pluginIndex : ℕ
  selected : pluginIndex < pluginOptions.length
  pluginOpts : JsValue
  editedProfile : Option JsProfile

namespace JsProfileEdit

def initial : JsProfileEdit where
  profileId := []
  name := .str []
  host := .str []
  remotePort := js "8388"
  password := .str []
  methodIndex := 1
  methodCustom := .str []
  routeIndex := 0
  pluginOptions := PLUGINS.map .str
  pluginIndex := 0
  selected := by decide
  pluginOpts := .str []
  editedProfile := none

/-- `options.indexOf(value)` -/
def indexIn (value : JsValue) (options : List JsValue) : Option ℕ := options.findIdx? fun option => strictEq option value

theorem indexIn_lt {value : JsValue} {options : List JsValue} (h : options ≠ []) :
    (indexIn value options).getD 0 < options.length := by
  unfold indexIn
  cases hi : options.findIdx? fun option => strictEq option value with
  | none => exact List.length_pos_iff.2 h
  | some i => exact (List.findIdx?_eq_some_iff_getElem.1 hi).1

/-- the presets, and an imported plugin that is none of them -/
def optionsOf (plugin : JsValue) (named : Bool) : List JsValue :=
  if named ∧ indexIn plugin (PLUGINS.map .str) = none then PLUGINS.map .str ++ [plugin] else PLUGINS.map .str

theorem optionsOf_ne (plugin : JsValue) (named : Bool) : optionsOf plugin named ≠ [] := by
  unfold optionsOf
  split_ifs <;> exact List.cons_ne_nil _ _

/-- the form shows the profile, unless a value makes the load throw -/
def load (id : JsString) (profile : JsProfile) : Option JsProfileEdit := do
  let remotePort ← profile.remotePort.toText
  let methodIndex := indexIn profile.method (METHODS.map .str)
  let named ← profile.plugin.lengthPositive
  some {
    profileId := id
    name := profile.name
    host := profile.host
    remotePort := remotePort
    password := profile.password
    methodIndex := methodIndex.elim (-1) (fun i => i)
    methodCustom := if methodIndex.isSome then .str [] else profile.method
    routeIndex := (indexIn profile.route (ALL_ROUTES.map .str)).getD 0
    pluginOptions := optionsOf profile.plugin named
    pluginIndex := (indexIn profile.plugin (optionsOf profile.plugin named)).getD 0
    selected := indexIn_lt (optionsOf_ne _ _)
    pluginOpts := profile.pluginOpts
    editedProfile := some profile }

/-- the page with an id, when the list has been read -/
def aboutToAppear (id : JsString) (profiles : List JsProfile) : Option JsProfileEdit :=
  if id = [] then some initial
  else
    match profiles.find? fun p => strictEq p.id (.str id) with
    | some profile => load id profile
    | none => some { initial with profileId := id }

/-- an index without a method gives undefined -/
def selectedMethod (f : JsProfileEdit) : Option JsString :=
  if 0 ≤ f.methodIndex then METHODS[f.methodIndex.toNat]? else f.methodCustom.trimmed

/-- the selected option, where none is a plugin without a name -/
def plugin (f : JsProfileEdit) : JsValue :=
  let option := f.pluginOptions.get ⟨f.pluginIndex, f.selected⟩
  if strictEq option (.str (js "none")) then .str [] else option

/-- `save`: the profile that reaches `upsert`, if any does -/
def save (newId : JsString) (f : JsProfileEdit) : Option JsProfile := do
  let method ← f.selectedMethod
  let host ← f.host.trimmed
  if host = [] ∨ f.password.lengthIsZero ∨ method = [] then none
  else
    let existing := f.editedProfile.getD ({} : Profile).toJs
    let name ← f.name.trimmed
    let pluginOpts ← f.pluginOpts.trimmed
    some (JsProfile.ensureId newId {
      id := .str f.profileId
      name := .str (if name ≠ [] then name else host)
      host := .str host
      remotePort := .num (portValue f.remotePort)
      password := f.password
      method := .str method
      route := .str ((ALL_ROUTES[f.routeIndex]?).getD ROUTE_ALL)
      subscriptionId := existing.subscriptionId
      localAddress := existing.localAddress
      localPort := existing.localPort
      plugin := f.plugin
      pluginOpts := .str pluginOpts })

end JsProfileEdit

/-! ### Forms of the declared types -/

/-- the form of `ProfileEdit` -/
def ProfileEdit.toJs (f : ProfileEdit) : JsProfileEdit where
  profileId := f.profileId
  name := .str f.name
  host := .str f.host
  remotePort := f.remotePort
  password := .str f.password
  methodIndex := f.methodIndex
  methodCustom := .str f.methodCustom
  routeIndex := f.routeIndex
  pluginOptions := f.pluginOptions.map .str
  pluginIndex := f.pluginIndex
  selected := by simp
  pluginOpts := .str f.pluginOpts
  editedProfile := f.editedProfile

theorem lengthIsZero_str (s : JsString) : (JsValue.str s).lengthIsZero = decide (s = []) := by
  simp [JsValue.lengthIsZero, JsValue.prop]

/-- the page saves what the form gives -/
theorem save_toJs (newId : JsString) (f : ProfileEdit) : f.toJs.save newId = f.save newId := by
  have hmethod : f.toJs.selectedMethod = f.selectedMethod := rfl
  have hplugin : f.toJs.plugin = .str (if f.pluginOptions.get f.pluginIndex = js "none" then []
      else f.pluginOptions.get f.pluginIndex) := by
    have hoption : f.toJs.pluginOptions.get ⟨f.toJs.pluginIndex, f.toJs.selected⟩ =
        .str (f.pluginOptions.get f.pluginIndex) := by
      simp [ProfileEdit.toJs]
    unfold JsProfileEdit.plugin
    simp only [hoption, strictEq, decide_eq_true_eq]
    split_ifs <;> rfl
  unfold JsProfileEdit.save ProfileEdit.save
  rw [hmethod]
  cases f.selectedMethod with
  | none => rfl
  | some method =>
    have hzero : f.toJs.password.lengthIsZero = decide (f.password = []) := lengthIsZero_str f.password
    have hhost : f.toJs.host.trimmed = some (jsTrim f.host) := rfl
    have hname : f.toJs.name.trimmed = some (jsTrim f.name) := rfl
    have hopts : f.toJs.pluginOpts.trimmed = some (jsTrim f.pluginOpts) := rfl
    simp only [Option.bind_eq_bind, Option.bind_some, hhost, hname, hopts, hzero, decide_eq_true_eq]
    by_cases hbad : jsTrim f.host = [] ∨ f.password = [] ∨ method = []
    · rw [if_pos hbad, if_pos hbad]
    · rw [if_neg hbad, if_neg hbad, hplugin]
      rfl

/-! ## Changes of the form -/

inductive Edit where
  | name (text : JsString)
  | host (text : JsString)
  | remotePort (text : JsString)
  | password (text : JsString)
  /-- the options of the list are the methods, and one for `methodCustom` after them -/
  | method (index : ℕ)
  | methodCustom (text : JsString)
  | route (index : ℕ)
  | plugin (index : ℕ)
  | pluginOpts (text : JsString)

/-- there is no option beyond the last -/
def Edit.apply (f : JsProfileEdit) : Edit → JsProfileEdit
  | .name text => { f with name := .str text }
  | .host text => { f with host := .str text }
  | .remotePort text => { f with remotePort := text }
  | .password text => { f with password := .str text }
  | .method index => { f with methodIndex := if index < METHODS.length then index else -1 }
  | .methodCustom text => { f with methodCustom := .str text }
  | .route index => { f with routeIndex := index }
  | .plugin index => if h : index < f.pluginOptions.length then { f with pluginIndex := index, selected := h } else f
  | .pluginOpts text => { f with pluginOpts := .str text }

inductive ProfileField where
  | id
  | name
  | host
  | remotePort
  | password
  | method
  | route
  | subscriptionId
  | localAddress
  | localPort
  | plugin
  | pluginOpts
deriving DecidableEq, Repr

def JsProfile.get (p : JsProfile) : ProfileField → JsValue
  | .id => p.id
  | .name => p.name
  | .host => p.host
  | .remotePort => p.remotePort
  | .password => p.password
  | .method => p.method
  | .route => p.route
  | .subscriptionId => p.subscriptionId
  | .localAddress => p.localAddress
  | .localPort => p.localPort
  | .plugin => p.plugin
  | .pluginOpts => p.pluginOpts

/-- the field of the profile that the changed field of the form stands for -/
def Edit.field : Edit → ProfileField
  | .name _ => .name
  | .host _ => .host
  | .remotePort _ => .remotePort
  | .password _ => .password
  | .method _ | .methodCustom _ => .method
  | .route _ => .route
  | .plugin _ => .plugin
  | .pluginOpts _ => .pluginOpts

end ShadowsocksOhos
