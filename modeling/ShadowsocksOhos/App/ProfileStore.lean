/-
The profile store (`ProfileStore.ets`): the list of profiles and the id of the selected one, which are two files. An
operation runs to its end before the next one begins, and what is read from a file is what was written to it.

- `replaceSubscription_currentId`: the repair in `replaceSubscription` never fires, since `getCurrent` falls back to the
first profile.
- `selected_iff`: the selection stays on a stored profile exactly as long as no `replaceSubscription` takes the selected
profile away.
- `dangling`: the first subscription, in an empty store.
-/
import ShadowsocksOhos.App.Profile
import ShadowsocksOhos.Core.Steps

namespace ShadowsocksOhos

/-! ## The store -/

structure ProfileStore where
  profiles : List Profile
  currentId : JsString
deriving DecidableEq

namespace ProfileStore

def empty : ProfileStore := ⟨[], []⟩

/-- `x` takes the place of the first entry with its key, or is pushed -/
def put {α : Type*} (key : α → JsString) (x : α) : List α → List α
  | [] => [x]
  | y :: ys => if key y = key x then x :: ys else y :: put key x ys

def setCurrentId (id : JsString) (s : ProfileStore) : ProfileStore := { s with currentId := id }

/-- the selected profile, or the first one -/
def getCurrent (s : ProfileStore) : Option Profile :=
  if s.profiles = [] then none else (s.profiles.find? (·.id = s.currentId)).or s.profiles.head?

def upsert (newId : JsString) (profile : Profile) (s : ProfileStore) : ProfileStore :=
  { s with profiles := put Profile.id (profile.ensureId newId) s.profiles }

/-- the id of the first profile, or the empty string -/
def firstId (profiles : List Profile) : JsString :=
  match profiles with
  | p :: _ => p.id
  | [] => []

def remove (id : JsString) (s : ProfileStore) : ProfileStore :=
  let s := { s with profiles := s.profiles.filter (·.id ≠ id) }
  if s.currentId = id then s.setCurrentId (firstId s.profiles) else s

/-- the profiles that the subscription does not own -/
def manual (subscriptionId : JsString) (profiles : List Profile) : List Profile :=
  profiles.filter (·.subscriptionId ≠ subscriptionId)

/-- the list that is returned is the stored one -/
def replaceSubscription (subscriptionId : JsString) (fresh : List Profile) (s : ProfileStore) : ProfileStore :=
  let s := { s with profiles := manual subscriptionId s.profiles ++ fresh }
  if s.getCurrent = none ∧ s.profiles ≠ [] then s.setCurrentId (firstId s.profiles) else s

/-! ## What the pages do -/

inductive Op where
  /-- an import or a save in the editor; `newId` is drawn when the profile has no id -/
  | save (newId : JsString) (profile : Profile)
  /-- a listed profile is selected -/
  | select (profile : Profile)
  | remove (id : JsString)
  | replaceSubscription (subscriptionId : JsString) (fresh : List Profile)

def step (s : ProfileStore) : Op → Option ProfileStore
  | .save newId profile => some ((s.upsert newId profile).setCurrentId (profile.ensureId newId).id)
  | .select profile => if profile ∈ s.profiles then some (s.setCurrentId profile.id) else none
  | .remove id => some (s.remove id)
  | .replaceSubscription subscriptionId fresh => some (s.replaceSubscription subscriptionId fresh)

/-- the stored id is the id of a stored profile, unless there is none -/
def Selected (s : ProfileStore) : Prop := s.profiles = [] ∨ ∃ p ∈ s.profiles, p.id = s.currentId

instance (s : ProfileStore) : Decidable s.Selected := inferInstanceAs (Decidable (_ ∨ _))

/-- the selected profile is not the subscription's, or is fresh, or nothing will be stored -/
def KeepsSelected (s : ProfileStore) : Op → Prop
  | .replaceSubscription subscriptionId fresh =>
    (manual subscriptionId s.profiles = [] ∧ fresh = []) ∨
      (∃ p ∈ s.profiles, p.subscriptionId ≠ subscriptionId ∧ p.id = s.currentId) ∨ ∃ p ∈ fresh, p.id = s.currentId
  | _ => True

instance (s : ProfileStore) : (op : Op) → Decidable (s.KeepsSelected op)
  | .replaceSubscription _ _ => inferInstanceAs (Decidable (_ ∨ _ ∨ _))
  | .save _ _ | .select _ | .remove _ => inferInstanceAs (Decidable True)

/-! ## One operation -/

theorem mem_put {α : Type*} (key : α → JsString) (x : α) (l : List α) : x ∈ put key x l := by
  induction l with
  | nil => exact List.mem_singleton.2 rfl
  | cons y ys ih =>
    unfold put
    split_ifs
    · exact List.mem_cons_self
    · exact List.mem_cons_of_mem _ ih

theorem put_cases {α : Type*} {key : α → JsString} {x y : α} {l : List α} (h : y ∈ put key x l) : y = x ∨ y ∈ l := by
  induction l with
  | nil => exact Or.inl (List.mem_singleton.1 h)
  | cons z zs ih =>
    unfold put at h
    split_ifs at h
    · exact (List.mem_cons.1 h).imp_right (List.mem_cons_of_mem _)
    · rcases List.mem_cons.1 h with h | h
      · exact Or.inr (h ▸ List.mem_cons_self)
      · exact (ih h).imp_right (List.mem_cons_of_mem _)

/-- an entry with another key stays -/
theorem mem_put_of_ne {α : Type*} {key : α → JsString} {x y : α} {l : List α} (hy : y ∈ l) (hne : key y ≠ key x) :
    y ∈ put key x l := by
  induction l with
  | nil => cases hy
  | cons z zs ih =>
    unfold put
    split_ifs with hz
    · rcases List.mem_cons.1 hy with rfl | hy
      · exact absurd hz hne
      · exact List.mem_cons_of_mem _ hy
    · rcases List.mem_cons.1 hy with rfl | hy
      · exact List.mem_cons_self
      · exact List.mem_cons_of_mem _ (ih hy)

/-- a key that is there stays -/
theorem put_keeps {α : Type*} (key : α → JsString) (x : α) {k : JsString} {l : List α} (h : ∃ y ∈ l, key y = k) :
    ∃ y ∈ put key x l, key y = k := by
  obtain ⟨y, hy, rfl⟩ := h
  induction l with
  | nil => cases hy
  | cons z zs ih =>
    unfold put
    split_ifs with hz
    · rcases List.mem_cons.1 hy with rfl | hy
      · exact ⟨x, List.mem_cons_self, hz.symm⟩
      · exact ⟨y, List.mem_cons_of_mem _ hy, rfl⟩
    · rcases List.mem_cons.1 hy with rfl | hy
      · exact ⟨y, List.mem_cons_self, rfl⟩
      · obtain ⟨w, hw, he⟩ := ih hy
        exact ⟨w, List.mem_cons_of_mem _ hw, he⟩

/-- the first entry with the key is replaced in place, or there is none and `x` comes last -/
theorem put_eq {α : Type*} (key : α → JsString) (x : α) (l : List α) :
    (∃ pre old post, l = pre ++ old :: post ∧ key old = key x ∧ (∀ y ∈ pre, key y ≠ key x) ∧
      put key x l = pre ++ x :: post) ∨ ((∀ y ∈ l, key y ≠ key x) ∧ put key x l = l ++ [x]) := by
  induction l with
  | nil => exact Or.inr ⟨nofun, rfl⟩
  | cons z zs ih =>
    unfold put
    by_cases hz : key z = key x
    · rw [if_pos hz]
      exact Or.inl ⟨[], z, zs, rfl, hz, nofun, rfl⟩
    · rw [if_neg hz]
      rcases ih with ⟨pre, old, post, rfl, hold, hpre, hput⟩ | ⟨hnone, hput⟩
      · refine Or.inl ⟨z :: pre, old, post, rfl, hold, ?_, by rw [hput, List.cons_append]⟩
        intro y hy
        rcases List.mem_cons.1 hy with rfl | hy
        · exact hz
        · exact hpre y hy
      · refine Or.inr ⟨?_, by rw [hput, List.cons_append]⟩
        intro y hy
        rcases List.mem_cons.1 hy with rfl | hy
        · exact hz
        · exact hnone y hy

theorem firstId_mem {profiles : List Profile} (h : profiles ≠ []) : ∃ p ∈ profiles, p.id = firstId profiles := by
  cases profiles with
  | nil => exact absurd rfl h
  | cons p ps => exact ⟨p, List.mem_cons_self, rfl⟩

/-- where there are profiles there is a current one -/
theorem getCurrent_eq_none {s : ProfileStore} : s.getCurrent = none ↔ s.profiles = [] := by
  unfold getCurrent
  split_ifs with h
  · exact iff_of_true rfl h
  · simp [h]

/-- **The repair never fires.** -/
theorem replaceSubscription_currentId (subscriptionId : JsString) (fresh : List Profile) (s : ProfileStore) :
    s.replaceSubscription subscriptionId fresh = ⟨manual subscriptionId s.profiles ++ fresh, s.currentId⟩ := by
  unfold replaceSubscription
  rw [if_neg]
  rw [getCurrent_eq_none]
  exact fun h => h.2 h.1

theorem selected_save (newId : JsString) (p : Profile) (s : ProfileStore) :
    ((s.upsert newId p).setCurrentId (p.ensureId newId).id).Selected :=
  Or.inr ⟨p.ensureId newId, mem_put _ _ _, rfl⟩

theorem selected_remove {s : ProfileStore} (hs : s.Selected) (id : JsString) : (s.remove id).Selected := by
  simp only [remove]
  split_ifs with h
  · by_cases hp : s.profiles.filter (·.id ≠ id) = []
    · exact Or.inl hp
    · exact Or.inr (firstId_mem hp)
  · -- the selected profile is not the one that goes
    rcases hs with hnil | ⟨p, hp, hid⟩
    · exact Or.inl (by simp [hnil])
    · refine Or.inr ⟨p, List.mem_filter.2 ⟨hp, ?_⟩, hid⟩
      have hne : p.id ≠ id := fun he => h (hid.symm.trans he)
      simpa using hne

theorem selected_replace (subscriptionId : JsString) (fresh : List Profile) (s : ProfileStore) :
    (s.replaceSubscription subscriptionId fresh).Selected ↔ s.KeepsSelected (.replaceSubscription subscriptionId fresh) := by
  rw [replaceSubscription_currentId]
  unfold Selected KeepsSelected manual
  simp only [List.append_eq_nil_iff, List.mem_append, List.mem_filter, decide_eq_true_eq, or_and_right, exists_or,
    and_assoc]

/-- an operation keeps the selection if and only if it meets the condition -/
theorem selected_step (s : ProfileStore) (op : Op) (s' : ProfileStore) (hs : s.Selected) (h : step s op = some s') :
    s'.Selected ↔ s.KeepsSelected op := by
  cases op with
  | save newId p =>
    cases h
    exact iff_of_true (selected_save newId p s) trivial
  | select p =>
    simp only [step] at h
    split_ifs at h with hp
    cases h
    exact iff_of_true (Or.inr ⟨p, hp, rfl⟩) trivial
  | remove id =>
    cases h
    exact iff_of_true (selected_remove hs id) trivial
  | replaceSubscription subscriptionId fresh =>
    cases h
    exact selected_replace subscriptionId fresh s

/-! ## Runs -/

/-- **After every operation of a run the selection is on a stored profile, if and only if every `replaceSubscription` of
the run leaves it there.** -/
theorem selected_iff (ops : List Op) (s : ProfileStore) (h : Steps.run step empty ops = some s) :
    (∀ before after t, ops = before ++ after → Steps.run step empty before = some t → t.Selected) ↔
      Steps.Along step KeepsSelected empty ops :=
  (Steps.along_iff_always selected_step (Or.inl rfl) h).symm

/-- a profile with an id, as a download gives it -/
def testProfile (id : String) : Profile := { id := js id, host := js "example.com", subscriptionId := js "s" }

/-- a subscription is updated, its second profile is selected, and stays in the next update -/
def keptRun : List Op :=
  [.save (js "m") {}, .replaceSubscription (js "s") [testProfile "1", testProfile "2"], .select (testProfile "2"),
    .replaceSubscription (js "s") [testProfile "2"], .remove (js "2")]

theorem selected_iff_kept : ∃ s, Steps.run step empty keptRun = some s ∧
    ∀ before after t, keptRun = before ++ after → Steps.run step empty before = some t → t.Selected :=
  ⟨_, rfl, (selected_iff keptRun _ rfl).2 (by decide)⟩

/-- **The selection dangles** after the first update of the first subscription. -/
theorem dangling : ¬ ∀ (ops : List Op) (s : ProfileStore), Steps.run step empty ops = some s →
    ∀ before after t, ops = before ++ after → Steps.run step empty before = some t → t.Selected := by
  intro h
  have hs := h [.replaceSubscription (js "s") [testProfile "1"]] _ rfl [.replaceSubscription (js "s") [testProfile "1"]] []
    _ rfl rfl
  revert hs
  decide

end ProfileStore

end ShadowsocksOhos
