/-
The profile store on its two files (`ProfileStore.ets` over `JsonStore.ets`). Every operation reads the whole list, through
UTF-8 and `JSON.parse`, and writes the whole list back, through `JSON.stringify` and UTF-8. The calls of a `write` succeed;
each call of a `read` may throw, and then the read returns the empty string, which is an empty list.

- `represents_step`: when all reads succeed, the files refine the store of `ProfileStore`.
- `ordered_map`: so the list is an ordered map from ids to profiles, in every run.
- `preserved_iff`: no profile is lost exactly when the first read of an operation succeeds, or the operation was to replace
every profile that is there.
- `erased`: a read that throws.
-/
import ShadowsocksOhos.App.JsonPrint
import ShadowsocksOhos.App.JsonStore
import ShadowsocksOhos.App.ProfileStore

namespace ShadowsocksOhos

namespace ProfileFile

/-! ## JsonStore -/

inductive Name where
  | profiles
  | currentId
deriving DecidableEq, Repr

abbrev Disk := Files (Name × JsonStore.Path)

/-- the calls of a `read` -/
inductive Call where
  | statSync
  | openSync
  | readSync
  | closeSync
deriving DecidableEq, Repr

/-- `fails` are the calls that throw although the file is there -/
def read (fails : Call → Bool) (fs : Disk) (name : Name) : JsString :=
  let text : Option JsString := do
    let stat ← if fails .statSync then none else fs.link (name, .path)
    let fd ← if fails .openSync then none else fs.link (name, .path)
    let buffer ← if fails .readSync then none else some (fs.read fd (fs.size stat))
    if fails .closeSync then none else some (JsonStore.textOf buffer)
  text.getD []

def write (name : Name) (content : JsString) (fs : Disk) : Disk :=
  fs.publish (name, .tmp) (name, .path) (JsonStore.bytesOf content)

/-! ## Profiles in a document -/

/-- `value ?? other` -/
def coalesce (other : JsValue) : Option JsValue → JsValue
  | none | some .null => other
  | some value => value

/-- a property of null throws -/
def fromJson (parsed : JsValue) : Option JsProfile := do
  some {
    id := coalesce (.str []) (← parsed.prop (js "id"))
    name := coalesce (.str (js "Default")) (← parsed.prop (js "name"))
    host := coalesce (.str []) (← parsed.prop (js "host"))
    remotePort := coalesce (.num (.finite 8388)) (← parsed.prop (js "remotePort"))
    password := coalesce (.str []) (← parsed.prop (js "password"))
    method := coalesce (.str (js "aes-256-gcm")) (← parsed.prop (js "method"))
    route := coalesce (.str ROUTE_ALL) (← parsed.prop (js "route"))
    subscriptionId := coalesce (.str []) (← parsed.prop (js "subscriptionId"))
    localAddress := coalesce (.str (js "127.0.0.1")) (← parsed.prop (js "localAddress"))
    localPort := coalesce (.num (.finite 1080)) (← parsed.prop (js "localPort"))
    plugin := coalesce (.str []) (← parsed.prop (js "plugin"))
    pluginOpts := coalesce (.str []) (← parsed.prop (js "pluginOpts")) }

/-- the object that `JSON.stringify` sees -/
def toJson (p : JsProfile) : JsValue :=
  .obj [(js "id", p.id), (js "name", p.name), (js "host", p.host), (js "remotePort", p.remotePort),
    (js "password", p.password), (js "method", p.method), (js "route", p.route), (js "subscriptionId", p.subscriptionId),
    (js "localAddress", p.localAddress), (js "localPort", p.localPort), (js "plugin", p.plugin),
    (js "pluginOpts", p.pluginOpts)]

/-- `JSON.parse` and `map`, which only an array has -/
def profilesOf (raw : JsString) : Option (List JsProfile) :=
  match jsonParse raw with
  | some (.arr items) => items.mapM fromJson
  | _ => none

/-- `===`; no two arrays or objects that are compared here are the same one -/
def strictEq : JsValue → JsValue → Bool
  | .null, .null => true
  | .bool a, .bool b => a = b
  | .num a, .num b => a = b
  | .str a, .str b => a = b
  | _, _ => false

/-! ## ProfileStore -/

def getAll (fails : Call → Bool) (fs : Disk) : List JsProfile :=
  let raw := read fails fs .profiles
  if raw = [] then [] else (profilesOf raw).getD []

def getCurrentId (fails : Call → Bool) (fs : Disk) : JsString := read fails fs .currentId

def setCurrentId (id : JsString) (fs : Disk) : Disk := write .currentId id fs

/-- the two reads of `getCurrent`, one after the other -/
def getCurrent (fails fails' : Call → Bool) (fs : Disk) : Option JsProfile :=
  let profiles := getAll fails fs
  if profiles.isEmpty then none
  else
    let currentId := getCurrentId fails' fs
    (profiles.find? fun p => strictEq p.id (.str currentId)).or profiles.head?

/-- the id of the first profile as the content of a file; what is not a string has no text -/
def firstId : List JsProfile → JsString
  | p :: _ => match p.id with
    | .str id => id
    | _ => []
  | [] => []

variable (stringify : JsValue → JsString)

def saveAll (profiles : List JsProfile) (fs : Disk) : Disk := write .profiles (stringify (.arr (profiles.map toJson))) fs

/-- the profile in place of the first one with its id, or at the end -/
def placed (profile : JsProfile) (profiles : List JsProfile) : List JsProfile :=
  match profiles.findIdx? (fun p => strictEq p.id profile.id) with
  | some index => profiles.set index profile
  | none => profiles ++ [profile]

/-- `fails n` are the calls that throw in read number `n` of the operation -/
def upsert (fails : ℕ → Call → Bool) (newId : JsString) (profile : JsProfile) (fs : Disk) : Disk :=
  let profile := profile.ensureId newId
  let profiles := getAll (fails 0) fs
  saveAll stringify (placed profile profiles) fs

def remove (fails : ℕ → Call → Bool) (id : JsString) (fs : Disk) : Disk :=
  let profiles := (getAll (fails 0) fs).filter fun p => !strictEq p.id (.str id)
  let fs := saveAll stringify profiles fs
  if getCurrentId (fails 1) fs = id then setCurrentId (firstId profiles) fs else fs

def replaceSubscription (fails : ℕ → Call → Bool) (subscriptionId : JsString) (fresh : List JsProfile) (fs : Disk) : Disk :=
  let manual := (getAll (fails 0) fs).filter fun p => !strictEq p.subscriptionId (.str subscriptionId)
  let profiles := manual ++ fresh
  let fs := saveAll stringify profiles fs
  if (getCurrent (fails 1) (fails 2) fs).isNone ∧ !profiles.isEmpty then setCurrentId (firstId profiles) fs else fs

/-! ## Operations on profiles of the declared types -/

inductive Op where
  /-- `newId` is drawn when the profile has no id -/
  | upsert (newId : JsString) (profile : Profile)
  | remove (id : JsString)
  | replaceSubscription (subscriptionId : JsString) (fresh : List Profile)

def Op.apply (fails : ℕ → Call → Bool) (fs : Disk) : Op → Disk
  | .upsert newId profile => ProfileFile.upsert stringify fails newId profile.toJs fs
  | .remove id => ProfileFile.remove stringify fails id fs
  | .replaceSubscription subscriptionId fresh =>
    ProfileFile.replaceSubscription stringify fails subscriptionId (fresh.map Profile.toJs) fs

/-- what the operation does to the store of `ProfileStore` -/
def Op.abstract (s : ProfileStore) : Op → ProfileStore
  | .upsert newId profile => s.upsert newId profile
  | .remove id => s.remove id
  | .replaceSubscription subscriptionId fresh => s.replaceSubscription subscriptionId fresh

/-- the list that is stored, when this list has been read -/
def Op.after (ps : List Profile) : Op → List Profile
  | .upsert newId profile => ProfileStore.put Profile.id (profile.ensureId newId) ps
  | .remove id => ps.filter fun p => p.id ≠ id
  | .replaceSubscription subscriptionId fresh => ProfileStore.manual subscriptionId ps ++ fresh

/-- the numbers are numbers of the language -/
def Doubles (p : Profile) : Prop := Binary64.IsDouble p.remotePort ∧ Binary64.IsDouble p.localPort

def Op.Doubles : Op → Prop
  | .upsert _ profile => ProfileFile.Doubles profile
  | .remove _ => True
  | .replaceSubscription _ fresh => ∀ p ∈ fresh, ProfileFile.Doubles p

/-- `JSON.parse` undoes `JSON.stringify` on lists of profiles -/
def Undoes : Prop := ∀ ps : List Profile, (∀ p ∈ ps, Doubles p) →
  jsonParse (stringify (.arr ((ps.map Profile.toJs).map toJson))) = some (.arr ((ps.map Profile.toJs).map toJson))

/-- no call throws -/
def Succeeds (fails : Call → Bool) : Prop := ∀ c, fails c = false

/-- the file of the profiles is there, and its content is a list of these profiles -/
def Holds (fs : Disk) (ps : List Profile) : Prop := ∃ bytes, fs.bytesAt (.profiles, .path) = some bytes ∧
  profilesOf (JsonStore.textOf bytes) = some (ps.map Profile.toJs)

/-! ## Reads and writes -/

theorem read_succeeds {fails : Call → Bool} (h : Succeeds fails) (fs : Disk) (name : Name) :
    read fails fs name = ((fs.bytesAt (name, .path)).map JsonStore.textOf).getD [] := by
  unfold read Files.bytesAt
  simp only [h _, Bool.false_eq_true, if_false]
  cases hf : fs.link (name, .path) with
  | none => rfl
  | some f =>
    simp only [Option.bind_eq_bind, Option.bind_some, Option.map_some, Option.getD_some, Files.read_size]

theorem read_throws {fails : Call → Bool} (h : ¬ Succeeds fails) (fs : Disk) (name : Name) : read fails fs name = [] := by
  unfold Succeeds at h
  push Not at h
  obtain ⟨c, hc⟩ := h
  rw [ne_eq, Bool.not_eq_false] at hc
  unfold read
  cases hf : fs.link (name, .path) with
  | none => cases fails .statSync <;> rfl
  | some f => cases c <;> simp [hc]

theorem write_spec {fs : Disk} (hs : fs.Separate) (name : Name) (content : JsString) :
    (write name content fs).Separate ∧
      (write name content fs).bytesAt (name, .path) = some (JsonStore.bytesOf content) ∧
      ∀ other, other ≠ name → (write name content fs).bytesAt (other, .path) = fs.bytesAt (other, .path) := by
  obtain ⟨h1, h2, h3⟩ := Files.publish_spec hs (p := (name, .tmp)) (q := (name, .path)) (by simp)
    (JsonStore.bytesOf content)
  refine ⟨h1, h2, ?_⟩
  intro other hne
  exact h3 (other, .path) (by simp) (by simpa using hne)

theorem fromJson_toJson (p : Profile) : fromJson (toJson p.toJs) = some p.toJs := rfl

variable {stringify}

theorem profilesOf_stringify (h : Undoes stringify) {ps : List Profile} (hps : ∀ p ∈ ps, Doubles p) :
    profilesOf (stringify (.arr ((ps.map Profile.toJs).map toJson))) = some (ps.map Profile.toJs) := by
  have hmap : ((ps.map Profile.toJs).map toJson).mapM fromJson = some (ps.map Profile.toJs) := by
    clear hps
    induction ps with
    | nil => rfl
    | cons p ps ih => simp only [List.map_cons, List.mapM_cons, fromJson_toJson, ih]; rfl
  unfold profilesOf
  rw [h ps hps]
  exact hmap

theorem saveAll_spec (h : Undoes stringify) {fs : Disk} (hs : fs.Separate) {ps : List Profile} (hps : ∀ p ∈ ps, Doubles p) :
    (saveAll stringify (ps.map Profile.toJs) fs).Separate ∧ Holds (saveAll stringify (ps.map Profile.toJs) fs) ps ∧
      (saveAll stringify (ps.map Profile.toJs) fs).bytesAt (.currentId, .path) = fs.bytesAt (.currentId, .path) := by
  obtain ⟨h1, h2, h3⟩ := write_spec hs .profiles (stringify (.arr ((ps.map Profile.toJs).map toJson)))
  refine ⟨h1, ⟨_, h2, ?_⟩, h3 .currentId (by decide)⟩
  rw [JsonStore.textOf_bytesOf]
  exact profilesOf_stringify h hps

theorem getAll_holds {fails : Call → Bool} (hf : Succeeds fails) {fs : Disk} {ps : List Profile} (h : Holds fs ps) :
    getAll fails fs = ps.map Profile.toJs := by
  obtain ⟨bytes, hbytes, hps⟩ := h
  unfold getAll
  rw [read_succeeds hf, hbytes, Option.map_some, Option.getD_some]
  -- the empty string is no document
  have hne : JsonStore.textOf bytes ≠ [] := by
    intro hc
    have hempty : profilesOf [] = none := rfl
    rw [hc, hempty] at hps
    cases hps
  simp only [if_neg hne, hps, Option.getD_some]

theorem getAll_throws {fails : Call → Bool} (hf : ¬ Succeeds fails) (fs : Disk) : getAll fails fs = [] := by
  unfold getAll
  rw [read_throws hf]
  rfl

/-! ## Refinement -/

/-- the files hold the profiles and the id of the store -/
structure Represents (fs : Disk) (s : ProfileStore) : Prop where
  separate : fs.Separate
  profiles : ∀ fails, Succeeds fails → getAll fails fs = s.profiles.map Profile.toJs
  currentId : ∀ fails, Succeeds fails → getCurrentId fails fs = s.currentId
  doubles : ∀ p ∈ s.profiles, Doubles p

theorem represents_empty : Represents ⟨[], []⟩ ProfileStore.empty := by
  have hread : ∀ fails, Succeeds fails → ∀ name, read fails ⟨[], []⟩ name = [] := by
    intro fails hf name
    rw [read_succeeds hf]
    rfl
  refine ⟨Files.separate_empty, ?_, fun fails hf => hread fails hf _, nofun⟩
  intro fails hf
  unfold getAll
  rw [hread fails hf]
  rfl

theorem represents_saveAll (h : Undoes stringify) {fs : Disk} {s : ProfileStore} (hr : Represents fs s)
    {ps : List Profile} (hps : ∀ p ∈ ps, Doubles p) :
    Represents (saveAll stringify (ps.map Profile.toJs) fs) { s with profiles := ps } := by
  obtain ⟨h1, h2, h3⟩ := saveAll_spec h hr.separate hps
  refine ⟨h1, fun fails hf => getAll_holds hf h2, ?_, hps⟩
  intro fails hf
  have hid := hr.currentId fails hf
  unfold getCurrentId at hid ⊢
  rw [read_succeeds hf] at hid ⊢
  rw [h3]
  exact hid

theorem represents_setCurrentId {fs : Disk} {s : ProfileStore} (hr : Represents fs s) (id : JsString) :
    Represents (setCurrentId id fs) (s.setCurrentId id) := by
  obtain ⟨h1, h2, h3⟩ := write_spec hr.separate .currentId id
  refine ⟨h1, ?_, ?_, hr.doubles⟩
  · intro fails hf
    have hget := hr.profiles fails hf
    unfold getAll at hget ⊢
    rw [read_succeeds hf] at hget ⊢
    have hsame := h3 .profiles (by decide)
    unfold setCurrentId
    rw [hsame]
    exact hget
  · intro fails hf
    unfold getCurrentId setCurrentId
    rw [read_succeeds hf, h2, Option.map_some, Option.getD_some, JsonStore.textOf_bytesOf]
    rfl

theorem ensureId_toJs (newId : JsString) (p : Profile) : p.toJs.ensureId newId = (p.ensureId newId).toJs := by
  have hzero : (JsValue.str p.id).lengthIsZero = decide (p.id = []) := by
    simp [JsValue.lengthIsZero, JsValue.prop]
  unfold JsProfile.ensureId Profile.ensureId
  by_cases hid : p.id = []
  · rw [if_pos hid, if_pos (by rw [show p.toJs.id = .str p.id from rfl, hzero, decide_eq_true hid])]
    rfl
  · rw [if_neg hid, if_neg (by rw [show p.toJs.id = .str p.id from rfl, hzero, decide_eq_false hid]; decide)]

theorem doubles_ensureId {newId : JsString} {p : Profile} (h : Doubles p) : Doubles (p.ensureId newId) := by
  unfold Profile.ensureId
  split_ifs <;> exact h

theorem strictEq_id (p : Profile) (id : JsString) : strictEq p.toJs.id (.str id) = decide (p.id = id) := rfl

theorem placed_toJs (x : Profile) (ps : List Profile) :
    placed x.toJs (ps.map Profile.toJs) = (ProfileStore.put Profile.id x ps).map Profile.toJs := by
  have hx : x.toJs.id = .str x.id := rfl
  unfold placed
  rw [hx]
  induction ps with
  | nil => rfl
  | cons p ps ih =>
    rw [List.map_cons, List.findIdx?_cons, strictEq_id]
    unfold ProfileStore.put
    by_cases hid : p.id = x.id
    · rw [if_pos hid, decide_eq_true hid]
      rfl
    · rw [if_neg hid, decide_eq_false hid, List.map_cons, ← ih]
      cases hfind : (ps.map Profile.toJs).findIdx? (fun p => strictEq p.id (.str x.id)) <;> rfl

theorem filter_toJs {q : JsProfile → Bool} {r : Profile → Bool} (hqr : ∀ p : Profile, q p.toJs = r p) (ps : List Profile) :
    (ps.map Profile.toJs).filter q = (ps.filter r).map Profile.toJs := by
  rw [List.filter_map]
  congr 1
  exact List.filter_congr fun p _ => hqr p

theorem remaining_toJs (id : JsString) (ps : List Profile) :
    (ps.map Profile.toJs).filter (fun p => !strictEq p.id (.str id)) =
      (ps.filter fun p => p.id ≠ id).map Profile.toJs :=
  filter_toJs (fun p => by rw [strictEq_id, decide_not]) ps

theorem manual_toJs (subscriptionId : JsString) (ps : List Profile) :
    (ps.map Profile.toJs).filter (fun p => !strictEq p.subscriptionId (.str subscriptionId)) =
      (ProfileStore.manual subscriptionId ps).map Profile.toJs := by
  have hsub : ∀ p : Profile, (!strictEq p.toJs.subscriptionId (.str subscriptionId)) =
      decide (p.subscriptionId ≠ subscriptionId) := fun p => decide_not.symm
  exact filter_toJs hsub ps

theorem firstId_toJs (ps : List Profile) : firstId (ps.map Profile.toJs) = ProfileStore.firstId ps := by
  cases ps <;> rfl

theorem doubles_filter {ps : List Profile} (hps : ∀ p ∈ ps, Doubles p) (q : Profile → Bool) : ∀ p ∈ ps.filter q, Doubles p :=
  fun p hp => hps p (List.mem_of_mem_filter hp)

theorem after_doubles {ps : List Profile} (hps : ∀ p ∈ ps, Doubles p) {op : Op} (hop : op.Doubles) :
    ∀ p ∈ op.after ps, Doubles p := by
  intro p hp
  cases op with
  | upsert newId q =>
    rcases ProfileStore.put_cases hp with rfl | hp
    · exact doubles_ensureId hop
    · exact hps p hp
  | remove id => exact doubles_filter hps _ p hp
  | replaceSubscription subscriptionId fresh =>
    rcases List.mem_append.1 hp with hp | hp
    · exact doubles_filter hps _ p hp
    · exact hop p hp

/-- the list of the store does not depend on the selection -/
theorem abstract_profiles (s : ProfileStore) (op : Op) : (op.abstract s).profiles = op.after s.profiles := by
  cases op with
  | upsert newId p => rfl
  | remove id =>
    simp only [Op.abstract, ProfileStore.remove]
    split_ifs <;> rfl
  | replaceSubscription subscriptionId fresh =>
    simp only [Op.abstract, ProfileStore.replaceSubscription_currentId]
    rfl

/-- **An operation whose reads succeed does to the files what it does to the store.** -/
theorem represents_step (h : Undoes stringify) {fs : Disk} {s : ProfileStore} (hr : Represents fs s) {op : Op}
    (hop : op.Doubles) {fails : ℕ → Call → Bool} (hf : ∀ n, Succeeds (fails n)) :
    Represents (op.apply stringify fails fs) (op.abstract s) := by
  have hget := hr.profiles (fails 0) (hf 0)
  have hsave := represents_saveAll h hr (after_doubles hr.doubles hop)
  cases op with
  | upsert newId p =>
    simp only [Op.apply, upsert, hget, ensureId_toJs, placed_toJs]
    exact hsave
  | remove id =>
    simp only [Op.after] at hsave
    simp only [Op.apply, Op.abstract, remove, ProfileStore.remove, hget, remaining_toJs, firstId_toJs]
    rw [hsave.currentId (fails 1) (hf 1)]
    by_cases hid : s.currentId = id
    · rw [if_pos hid, if_pos hid]
      exact represents_setCurrentId hsave _
    · rw [if_neg hid, if_neg hid]
      exact hsave
  | replaceSubscription subscriptionId fresh =>
    simp only [Op.after] at hsave
    simp only [Op.apply, Op.abstract, replaceSubscription, ProfileStore.replaceSubscription_currentId, hget, manual_toJs,
      ← List.map_append]
    rw [if_neg]
    · exact hsave
    · -- there is a current profile as soon as there is any
      rintro ⟨hnone, hany⟩
      unfold getCurrent at hnone
      rw [hsave.profiles (fails 1) (hf 1)] at hnone
      generalize (ProfileStore.manual subscriptionId s.profiles ++ fresh).map Profile.toJs = qs at hnone hany
      cases qs with
      | nil => cases hany
      | cons q qs => simp at hnone

/-! ## The ordered map -/

/-- the ids are there, and differ -/
structure Distinct (ps : List Profile) : Prop where
  nodup : (ps.map Profile.id).Nodup
  ids_ne : ∀ p ∈ ps, p.id ≠ []

/-- what an operation on an ordered map does to its profiles -/
def Effect (ps ps' : List Profile) : Op → Prop
  | .upsert newId profile =>
    (∃ pre old post, ps = pre ++ old :: post ∧ old.id = (profile.ensureId newId).id ∧
      ps' = pre ++ profile.ensureId newId :: post) ∨
    ((∀ q ∈ ps, q.id ≠ (profile.ensureId newId).id) ∧ ps' = ps ++ [profile.ensureId newId])
  | .remove id => ps' = ps.filter fun p => p.id ≠ id
  | .replaceSubscription subscriptionId fresh => ps' = (ps.filter fun p => p.subscriptionId ≠ subscriptionId) ++ fresh

/-- an id that was drawn is not empty and not in use, and nor are those of fresh profiles, which differ -/
def Unused (ids : List JsValue) : Op → Prop
  | .upsert newId profile => profile.id = [] → newId ≠ [] ∧ .str newId ∉ ids
  | .remove _ => True
  | .replaceSubscription _ fresh => Distinct fresh ∧ ∀ p ∈ fresh, .str p.id ∉ ids

theorem effect_after (ps : List Profile) (op : Op) : Effect ps (op.after ps) op := by
  cases op with
  | upsert newId p =>
    rcases ProfileStore.put_eq Profile.id (p.ensureId newId) ps with ⟨pre, old, post, hps, hold, -, hput⟩ | hput
    · exact Or.inl ⟨pre, old, post, hps, hold, hput⟩
    · exact Or.inr hput
  | remove id => rfl
  | replaceSubscription subscriptionId fresh => rfl

theorem Distinct.filter {ps : List Profile} (h : Distinct ps) (q : Profile → Bool) : Distinct (ps.filter q) :=
  ⟨h.nodup.sublist ((List.filter_sublist).map Profile.id), fun p hp => h.ids_ne p (List.mem_of_mem_filter hp)⟩

theorem Distinct.append {ps qs : List Profile} (hp : Distinct ps) (hq : Distinct qs)
    (hne : ∀ p ∈ ps, ∀ q ∈ qs, p.id ≠ q.id) : Distinct (ps ++ qs) := by
  refine ⟨?_, ?_⟩
  · rw [List.map_append, List.nodup_append]
    refine ⟨hp.nodup, hq.nodup, ?_⟩
    intro a ha b hb
    obtain ⟨p, hpm, rfl⟩ := List.mem_map.1 ha
    obtain ⟨q, hqm, rfl⟩ := List.mem_map.1 hb
    exact hne p hpm q hqm
  · intro p hpm
    rcases List.mem_append.1 hpm with h | h
    · exact hp.ids_ne p h
    · exact hq.ids_ne p h

/-- a profile takes the place of one with the same id -/
theorem Distinct.replace {pre post : List Profile} {old new : Profile} (h : Distinct (pre ++ old :: post))
    (hid : old.id = new.id) : Distinct (pre ++ new :: post) := by
  have hmap : (pre ++ new :: post).map Profile.id = (pre ++ old :: post).map Profile.id := by
    simp [hid]
  refine ⟨hmap ▸ h.nodup, ?_⟩
  intro p hp
  have hmem : p.id ∈ (pre ++ old :: post).map Profile.id := hmap ▸ List.mem_map_of_mem hp
  obtain ⟨q, hq, hqid⟩ := List.mem_map.1 hmem
  exact hqid ▸ h.ids_ne q hq

/-- **The ids stay distinct.** -/
theorem distinct_effect {ps ps' : List Profile} {op : Op} (h : Distinct ps) (he : Effect ps ps' op)
    (hu : Unused (ps.map fun p => .str p.id) op) : Distinct ps' := by
  have hids : ∀ {id : JsString}, JsValue.str id ∉ ps.map (fun p => .str p.id) → ∀ p ∈ ps, p.id ≠ id := by
    intro id hn p hp hc
    exact hn (List.mem_map.2 ⟨p, hp, by rw [hc]⟩)
  cases op with
  | upsert newId p =>
    have hne : (p.ensureId newId).id ≠ [] := by
      unfold Profile.ensureId
      split_ifs with hid
      · exact (hu hid).1
      · exact hid
    rcases he with ⟨pre, old, post, rfl, hold, rfl⟩ | ⟨hnew, rfl⟩
    · exact h.replace hold
    · have hone : Distinct [p.ensureId newId] := by
        refine ⟨List.nodup_singleton _, ?_⟩
        intro q hq
        rw [List.mem_singleton.1 hq]
        exact hne
      refine h.append hone ?_
      intro q hq r hr
      rw [List.mem_singleton.1 hr]
      exact hnew q hq
  | remove id =>
    rw [show ps' = _ from he]
    exact h.filter _
  | replaceSubscription subscriptionId fresh =>
    rw [show ps' = _ from he]
    refine (h.filter _).append hu.1 ?_
    intro p hp q hq
    exact hids (hu.2 q hq) p (List.mem_of_mem_filter hp)

/-! ## Runs -/

/-- all reads of the operation succeed -/
def allSucceed : ℕ → Call → Bool := fun _ _ => false

theorem succeeds_all (n : ℕ) : Succeeds (allSucceed n) := fun _ => rfl

variable (stringify) in
def step (fs : Disk) (op : Op) : Option Disk := some (op.apply stringify allSucceed fs)

/-- the numbers are numbers of the language, and drawn ids are not in use -/
def Allowed (fs : Disk) (op : Op) : Prop := op.Doubles ∧ Unused ((getAll (allSucceed 0) fs).map JsProfile.id) op

theorem ids_toJs (ps : List Profile) : (ps.map Profile.toJs).map JsProfile.id = ps.map fun p => .str p.id := by
  rw [List.map_map]
  rfl

/-- the store that the files hold, with distinct ids -/
def Sound (fs : Disk) : Prop := ∃ s, Represents fs s ∧ Distinct s.profiles

theorem sound_step (h : Undoes stringify) (fs : Disk) (op : Op) (fs' : Disk) (hs : Sound fs) (ha : Allowed fs op)
    (hstep : step stringify fs op = some fs') : ∃ ps ps' : List Profile,
      (getAll (allSucceed 0) fs = ps.map Profile.toJs ∧ getAll (allSucceed 0) fs' = ps'.map Profile.toJs ∧ Distinct ps' ∧
        Effect ps ps' op) ∧ Sound fs' := by
  obtain ⟨s, hr, hd⟩ := hs
  obtain ⟨hop, hu⟩ := ha
  cases hstep
  have hr' := represents_step h hr hop succeeds_all
  have heffect := effect_after s.profiles op
  rw [← abstract_profiles] at heffect
  rw [hr.profiles _ (succeeds_all 0), ids_toJs] at hu
  have hd' := distinct_effect hd heffect hu
  exact ⟨s.profiles, (op.abstract s).profiles,
    ⟨hr.profiles _ (succeeds_all 0), hr'.profiles _ (succeeds_all 0), hd', heffect⟩, _, hr', hd'⟩

/-- **The store is an ordered map from ids to profiles**: in every run from an empty store, each operation does to the list
that is read back what it does to an ordered map, all fields of the other profiles included, and the ids stay distinct. -/
theorem ordered_map (h : Undoes stringify) {ops : List Op} {op : Op} {fs fs' : Disk}
    (hrun : Steps.run (step stringify) ⟨[], []⟩ ops = some fs) (hstep : step stringify fs op = some fs')
    (hallowed : Steps.Along (step stringify) Allowed ⟨[], []⟩ ops) (hop : Allowed fs op) :
    ∃ ps ps' : List Profile, getAll (allSucceed 0) fs = ps.map Profile.toJs ∧
      getAll (allSucceed 0) fs' = ps'.map Profile.toJs ∧ Distinct ps' ∧ Effect ps ps' op := by
  have hempty : Sound ⟨[], []⟩ := ⟨_, represents_empty, ⟨List.nodup_nil, nofun⟩⟩
  have hsound : Sound fs := by
    refine Steps.run_inv ?_ hempty hallowed hrun
    intro t o t' ht ha ho
    obtain ⟨-, -, -, hs⟩ := sound_step h t o t' ht ha ho
    exact hs
  obtain ⟨ps, ps', hps, -⟩ := sound_step h fs op fs' hsound hop hstep
  exact ⟨ps, ps', hps⟩

/-- a list of profiles can be printed -/
theorem plain_profiles {ps : List Profile} (hps : ∀ p ∈ ps, Doubles p) :
    JsonPrint.Plain (.arr ((ps.map Profile.toJs).map toJson)) := by
  show JsonPrint.PlainItems ((ps.map Profile.toJs).map toJson)
  induction ps with
  | nil => trivial
  | cons p ps ih =>
    refine ⟨?_, ih fun q hq => hps q (List.mem_cons_of_mem p hq)⟩
    obtain ⟨hremote, hlocal⟩ := hps p List.mem_cons_self
    have hkeys : [js "id", js "name", js "host", js "remotePort", js "password", js "method", js "route",
        js "subscriptionId", js "localAddress", js "localPort", js "plugin", js "pluginOpts"].Nodup := by
      decide
    exact ⟨hkeys, trivial, trivial, trivial, hremote, trivial, trivial, trivial, trivial, trivial, hlocal, trivial,
      trivial, trivial⟩

/-- the printer is undone -/
theorem undoes_print : Undoes JsonPrint.print := fun _ hps => JsonPrint.jsonParse_print (plain_profiles hps)

/-- a profile with an id -/
def testProfile (id : String) : Profile := { id := js id, name := js "näme", host := js "a.example", subscriptionId := js "s" }

theorem doubles_test (id : String) : Doubles (testProfile id) :=
  ⟨Binary64.isDouble_int (n := 8388) (by decide), Binary64.isDouble_int (n := 1080) (by decide)⟩

theorem doubles_pair : ∀ p ∈ [testProfile "1", testProfile "2"], Doubles p := by
  intro p hp
  rcases List.mem_cons.1 hp with rfl | hp
  · exact doubles_test "1"
  · rw [List.mem_singleton.1 hp]
    exact doubles_test "2"

/-- a subscription, an edited profile of it, and a new one -/
def testRun : List Op :=
  [.replaceSubscription (js "s") [testProfile "1", testProfile "2"], .upsert [] (testProfile "1"),
    .upsert [] { testProfile "3" with subscriptionId := [] }]

theorem ordered_map_test : ∃ fs fs', Steps.run (step JsonPrint.print) ⟨[], []⟩ testRun = some fs ∧
    step JsonPrint.print fs (.remove (js "2")) = some fs' ∧
    ∃ ps ps' : List Profile, getAll (allSucceed 0) fs = ps.map Profile.toJs ∧
      getAll (allSucceed 0) fs' = ps'.map Profile.toJs ∧ Distinct ps' ∧ Effect ps ps' (.remove (js "2")) := by
  have hfresh : Distinct [testProfile "1", testProfile "2"] := ⟨by decide, by decide⟩
  have hallowed : Steps.Along (step JsonPrint.print) Allowed ⟨[], []⟩ testRun := by
    refine ⟨⟨doubles_pair, hfresh, ?_⟩, ⟨doubles_test "1", ?_⟩, ⟨doubles_test "3", ?_⟩, trivial⟩
    · exact fun _ _ => List.not_mem_nil
    · exact fun hc => absurd hc (by decide)
    · exact fun hc => absurd hc (by decide)
  exact ⟨_, _, rfl, rfl, ordered_map undoes_print rfl rfl hallowed ⟨trivial, trivial⟩⟩

/-! ## Reads that throw -/

/-- the profile is one that the operation replaces or deletes -/
def Op.Asked (p : Profile) : Op → Prop
  | .upsert newId profile => p.id = (profile.ensureId newId).id
  | .remove id => p.id = id
  | .replaceSubscription subscriptionId _ => p.subscriptionId = subscriptionId

/-- the profiles that the operation stores itself -/
def Op.stored : Op → List Profile
  | .upsert newId profile => [profile.ensureId newId]
  | .remove _ => []
  | .replaceSubscription _ fresh => fresh

/-- the file is as it was, or its content is a list with every profile that was not to go -/
def Preserved (op : Op) (ps : List Profile) (fs fs' : Disk) : Prop :=
  fs'.bytesAt (.profiles, .path) = fs.bytesAt (.profiles, .path) ∨
    ∃ ps', Holds fs' ps' ∧ ∀ p ∈ ps, ¬ op.Asked p → p ∈ ps'

theorem holds_unique {fs : Disk} {ps qs : List Profile} (hp : Holds fs ps) (hq : Holds fs qs) : ps = qs := by
  obtain ⟨bytes, hbytes, hps⟩ := hp
  obtain ⟨bytes', hbytes', hqs⟩ := hq
  rw [hbytes] at hbytes'
  cases hbytes'
  rw [hps] at hqs
  exact List.map_injective_iff.2 Profile.toJs_injective (Option.some.inj hqs)

theorem after_nil (op : Op) : op.after [] = op.stored := by
  cases op <;> rfl

theorem after_keeps {ps : List Profile} {op : Op} {p : Profile} (hp : p ∈ ps) (hasked : ¬ op.Asked p) : p ∈ op.after ps := by
  cases op with
  | upsert newId q => exact ProfileStore.mem_put_of_ne hp hasked
  | remove id => exact List.mem_filter.2 ⟨hp, decide_eq_true hasked⟩
  | replaceSubscription subscriptionId fresh =>
    exact List.mem_append_left _ (List.mem_filter.2 ⟨hp, decide_eq_true hasked⟩)

/-- whatever the other reads do, the list goes into the file -/
theorem holds_apply (h : Undoes stringify) {fs : Disk} (hs : fs.Separate) {ps : List Profile} (hps : ∀ p ∈ ps, Doubles p)
    {op : Op} (hop : op.Doubles) {fails : ℕ → Call → Bool} (hget : getAll (fails 0) fs = ps.map Profile.toJs) :
    Holds (op.apply stringify fails fs) (op.after ps) := by
  obtain ⟨h1, h2, -⟩ := saveAll_spec h hs (after_doubles hps hop)
  have hid : ∀ id, Holds (setCurrentId id (saveAll stringify ((op.after ps).map Profile.toJs) fs)) (op.after ps) := by
    intro id
    obtain ⟨bytes, hbytes, hlist⟩ := h2
    obtain ⟨-, -, h3⟩ := write_spec h1 .currentId id
    exact ⟨bytes, (h3 .profiles (by decide)).trans hbytes, hlist⟩
  cases op with
  | upsert newId p =>
    simp only [Op.apply, upsert, hget, ensureId_toJs, placed_toJs]
    exact h2
  | remove id =>
    simp only [Op.apply, remove, hget, remaining_toJs]
    split_ifs
    · exact hid _
    · exact h2
  | replaceSubscription subscriptionId fresh =>
    simp only [Op.apply, replaceSubscription, hget, manual_toJs, ← List.map_append]
    split_ifs
    · exact hid _
    · exact h2

theorem preserved_succeeds (h : Undoes stringify) {fs : Disk} (hs : fs.Separate) {ps : List Profile} (hps : Holds fs ps)
    (hdoubles : ∀ p ∈ ps, Doubles p) {op : Op} (hop : op.Doubles) {fails : ℕ → Call → Bool} (hf : Succeeds (fails 0)) :
    Preserved op ps fs (op.apply stringify fails fs) :=
  Or.inr ⟨_, holds_apply h hs hdoubles hop (getAll_holds hf hps), fun _ hp hasked => after_keeps hp hasked⟩

/-- after a read that throws the file holds what the operation itself stores -/
theorem preserved_throws (h : Undoes stringify) {fs : Disk} (hs : fs.Separate) {ps : List Profile} (hps : Holds fs ps)
    {op : Op} (hop : op.Doubles) {fails : ℕ → Call → Bool} (hf : ¬ Succeeds (fails 0)) :
    Preserved op ps fs (op.apply stringify fails fs) ↔ ∀ p ∈ ps, op.Asked p ∨ p ∈ op.stored := by
  have hempty : getAll (fails 0) fs = ([] : List Profile).map Profile.toJs := getAll_throws hf fs
  have hholds := holds_apply h hs (fun _ hp => absurd hp List.not_mem_nil) hop hempty
  rw [after_nil] at hholds
  constructor
  · intro hpreserved p hp
    rcases hpreserved with hsame | ⟨ps', hps', hkept⟩
    · obtain ⟨bytes, hbytes, hlist⟩ := hps
      have hold : Holds (op.apply stringify fails fs) ps := ⟨bytes, hsame.trans hbytes, hlist⟩
      exact Or.inr (holds_unique hholds hold ▸ hp)
    · rw [holds_unique hps' hholds] at hkept
      by_cases hasked : op.Asked p
      · exact Or.inl hasked
      · exact Or.inr (hkept p hp hasked)
  · intro hall
    exact Or.inr ⟨op.stored, hholds, fun p hp hasked => (hall p hp).resolve_left hasked⟩

/-- **No profile is lost exactly when** no call of the first read throws, or every profile that is there is one that the
operation replaces, deletes or stores itself. -/
theorem preserved_iff (h : Undoes stringify) {fs : Disk} (hs : fs.Separate) {ps : List Profile} (hps : Holds fs ps)
    (hdoubles : ∀ p ∈ ps, Doubles p) {op : Op} (hop : op.Doubles) (fails : ℕ → Call → Bool) :
    Preserved op ps fs (op.apply stringify fails fs) ↔
      Succeeds (fails 0) ∨ ∀ p ∈ ps, op.Asked p ∨ p ∈ op.stored := by
  by_cases hf : Succeeds (fails 0)
  · exact iff_of_true (preserved_succeeds h hs hps hdoubles hop hf) (Or.inl hf)
  · rw [preserved_throws h hs hps hop hf, or_iff_right hf]

/-- two profiles in the file -/
def testDisk : Disk := saveAll JsonPrint.print ([testProfile "1", testProfile "2"].map Profile.toJs) ⟨[], []⟩

/-- `openSync` throws in the first read -/
def tooManyFiles : ℕ → Call → Bool := fun n c => n = 0 ∧ c = .openSync

/-- the subscription of both profiles is replaced -/
theorem preserved_iff_owned :
    Preserved (.replaceSubscription (js "s") []) [testProfile "1", testProfile "2"] testDisk
      ((Op.replaceSubscription (js "s") []).apply JsonPrint.print tooManyFiles testDisk) := by
  obtain ⟨hs, hps, -⟩ := saveAll_spec undoes_print Files.separate_empty doubles_pair
  have hop : (Op.replaceSubscription (js "s") []).Doubles := fun _ hp => absurd hp List.not_mem_nil
  refine (preserved_iff undoes_print hs hps doubles_pair hop tooManyFiles).2 (Or.inr ?_)
  intro p hp
  refine Or.inl ?_
  rcases List.mem_cons.1 hp with rfl | hp
  · rfl
  · rw [List.mem_singleton.1 hp]
    rfl

/-- **A read that throws erases the list**: one profile is deleted, and the other is gone as well. -/
theorem erased : ¬ ∀ (stringify : JsValue → JsString) (fs : Disk) (ps : List Profile) (op : Op) (fails : ℕ → Call → Bool),
    Undoes stringify → fs.Separate → Holds fs ps → (∀ p ∈ ps, Doubles p) → op.Doubles →
    Preserved op ps fs (op.apply stringify fails fs) := by
  intro h
  obtain ⟨hs, hps, -⟩ := saveAll_spec undoes_print Files.separate_empty doubles_pair
  have hpreserved := h JsonPrint.print testDisk _ (.remove (js "1")) tooManyFiles undoes_print hs hps doubles_pair trivial
  have hthrows : ¬ Succeeds (tooManyFiles 0) := fun hc => absurd (hc .openSync) (by decide)
  have hop : (Op.remove (js "1")).Doubles := trivial
  rcases (preserved_throws undoes_print hs hps hop hthrows).1 hpreserved (testProfile "2") (by decide) with hasked | hstored
  · exact absurd hasked (by decide : ¬ js "2" = js "1")
  · exact absurd hstored List.not_mem_nil

end ProfileFile

end ShadowsocksOhos
