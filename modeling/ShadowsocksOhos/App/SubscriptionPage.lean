/-
The subscription page (`pages/Subscription.ets`, `SubscriptionStore`): `addSubscription`, `update` and `remove` on one event
loop. Code between two awaits runs without interruption, so each call of a store is one step; the steps of the
operations in flight (`Task`) come in any order. Calls of the stores succeed, a download may fail or bring any profiles.

A `Subscription` here has passed `ensureId`, as every stored one has. `drawn` lists the ids that are or were in use, so
that `newProfileId` draws a new one.

- `deleted_iff`: once everything has run to its end, a deleted subscription is gone if and only if no update of it
stored anything after the delete.
- `resurrected`: the download that was under way.
-/
import ShadowsocksOhos.App.ProfileStore
import ShadowsocksOhos.Core.Dict

namespace ShadowsocksOhos

namespace SubscriptionPage

/-! ## State -/

structure Subscription where
  id : JsString
  url : JsString
  updatedAt : ℚ
  id_ne : id ≠ []
deriving DecidableEq

/-- the awaits of `reload` -/
inductive Reload where
  /-- `SubscriptionStore.getAll`, and what it has read -/
  | listing (read : List Subscription)
  /-- `ProfileStore.getAll`, and what it has read -/
  | counting (profiles : List Profile)
deriving DecidableEq

/-- an operation in flight, by the await it is at -/
inductive Task where
  /-- `addSubscription`: `SubscriptionStore.upsert` -/
  | added (sub : Subscription)
  /-- `addSubscription`: `reload` -/
  | addReload (sub : Subscription) (r : Reload)
  /-- `update`: `fetchSubscription` -/
  | fetching (sub : Subscription)
  /-- `update`: `ProfileStore.replaceSubscription` -/
  | replaced (sub : Subscription)
  /-- `update`: `SubscriptionStore.upsert` -/
  | upserted
  /-- `remove`: `ProfileStore.replaceSubscription` -/
  | removing (sub : Subscription)
  /-- `remove`: `SubscriptionStore.remove` -/
  | removed
  /-- the `reload` at the end of an operation, or of `aboutToAppear` -/
  | reloading (r : Reload)
deriving DecidableEq

structure St where
  store : ProfileStore
  /-- the stored subscriptions -/
  subscriptions : List Subscription
  /-- `this.subscriptions` -/
  listed : List Subscription
  profileCounts : List (JsString × ℕ)
  updatingId : JsString
  tasks : List Task
  drawn : List JsString
deriving DecidableEq

/-- the page has been opened on what is stored -/
def St.opened (store : ProfileStore) (subscriptions : List Subscription) : St :=
  ⟨store, subscriptions, [], [], [], [], subscriptions.map Subscription.id⟩

/-! ## Steps -/

/-- how many profiles each subscription owns -/
def countProfiles (profiles : List Profile) : List (JsString × ℕ) :=
  profiles.foldl (fun counts p =>
    if p.subscriptionId ≠ [] then Dict.insert p.subscriptionId ((Dict.get p.subscriptionId counts).getD 0 + 1) counts
    else counts) []

/-- what `parseSubscriptionBody` makes of the entries of a body: profiles of the subscription -/
def owned (sub : Subscription) (entries : List Profile) : List Profile :=
  entries.map fun p => { p with subscriptionId := sub.id }

/-- `update` is called -/
def startUpdate (s : St) (sub : Subscription) : St × Option Task :=
  if s.updatingId ≠ [] then (s, none) else ({ s with updatingId := sub.id }, some (.fetching sub))

/-- the `finally` of `update` -/
def endUpdate (s : St) : St × Option Task :=
  ({ s with updatingId := [] }, some (.reloading (.listing s.subscriptions)))

/-- an operation goes on to its next await, or to its end. A download brings `fetched`, or fails; `now` is the time. -/
def advance (s : St) (fetched : Option (List Profile)) (now : ℚ) : Task → St × Option Task
  | .added sub => (s, some (.addReload sub (.listing s.subscriptions)))
  | .addReload sub (.listing read) => ({ s with listed := read }, some (.addReload sub (.counting s.store.profiles)))
  | .addReload sub (.counting profiles) => startUpdate { s with profileCounts := countProfiles profiles } sub
  | .fetching sub =>
    match fetched with
    | some (p :: ps) =>
      ({ s with store := s.store.replaceSubscription sub.id (owned sub (p :: ps)) }, some (.replaced sub))
    | _ => endUpdate s
  | .replaced sub =>
    let sub := { sub with updatedAt := now }
    ({ s with subscriptions := ProfileStore.put Subscription.id sub s.subscriptions }, some .upserted)
  | .upserted => endUpdate s
  | .removing sub => ({ s with subscriptions := s.subscriptions.filter (·.id ≠ sub.id) }, some .removed)
  | .removed => (s, some (.reloading (.listing s.subscriptions)))
  | .reloading (.listing read) => ({ s with listed := read }, some (.reloading (.counting s.store.profiles)))
  | .reloading (.counting profiles) => ({ s with profileCounts := countProfiles profiles }, none)

inductive Action where
  | aboutToAppear
  /-- `newId` is what `newProfileId` draws -/
  | addSubscription (url newId : JsString)
  | update (sub : Subscription)
  | remove (sub : Subscription)
  /-- the operation at this place of the list goes on -/
  | resume (i : ℕ) (fetched : Option (List Profile)) (now : ℚ)
deriving DecidableEq

def isHttp (url : JsString) : Bool := (js "http://").isPrefixOf url || (js "https://").isPrefixOf url

/-- the task at place `i` is replaced by what is left of it -/
def putTask (i : ℕ) (next : Option Task) (tasks : List Task) : List Task :=
  tasks.take i ++ (next.toList ++ tasks.drop (i + 1))

def step (s : St) : Action → Option St
  | .aboutToAppear => some { s with tasks := s.tasks ++ [.reloading (.listing s.subscriptions)] }
  | .addSubscription url newId =>
    if !isHttp (jsTrim url) then some s
    else if h : newId ≠ [] ∧ newId ∉ s.drawn then
      let sub := ⟨newId, jsTrim url, 0, h.1⟩
      some { s with
        subscriptions := ProfileStore.put Subscription.id sub s.subscriptions
        drawn := newId :: s.drawn
        tasks := s.tasks ++ [.added sub] }
    else none
  | .update sub =>
    if sub ∈ s.listed then
      let (s, task) := startUpdate s sub
      some { s with tasks := s.tasks ++ task.toList }
    else none
  | .remove sub =>
    if sub ∈ s.listed then
      some { s with
        store := s.store.replaceSubscription sub.id []
        tasks := s.tasks ++ [.removing sub] }
    else none
  | .resume i fetched now =>
    match s.tasks[i]? with
    | some task =>
      let (s', next) := advance s fetched now task
      some { s' with tasks := putTask i next s.tasks }
    | none => none

/-! ## The conditions -/

/-- nothing of the subscription is stored -/
def Gone (id : JsString) (s : St) : Prop :=
  (∀ x ∈ s.subscriptions, x.id ≠ id) ∧ ∀ p ∈ s.store.profiles, p.subscriptionId ≠ id

instance (id : JsString) (s : St) : Decidable (Gone id s) := inferInstanceAs (Decidable (_ ∧ _))

/-- the task is a `remove` that has yet to call `SubscriptionStore.remove` -/
def Task.removes (id : JsString) : Task → Bool
  | .removing sub => sub.id = id
  | _ => false

/-- the subscription will still be taken off the list -/
def Removing (id : JsString) (tasks : List Task) : Prop := ∃ t ∈ tasks, t.removes id = true

instance (id : JsString) (tasks : List Task) : Decidable (Removing id tasks) :=
  inferInstanceAs (Decidable (∃ t ∈ tasks, _))

/-- the task goes on to store something of the subscription: profiles, or the subscription when nothing will take it off
the list any more -/
def Task.restores (id : JsString) (fetched : Option (List Profile)) (removing : Prop) : Task → Prop
  | .fetching sub => sub.id = id ∧ fetched.getD [] ≠ []
  | .replaced sub => sub.id = id ∧ ¬ removing
  | _ => False

instance (id : JsString) (fetched : Option (List Profile)) (removing : Prop) [Decidable removing] :
    (t : Task) → Decidable (t.restores id fetched removing)
  | .fetching _ | .replaced _ => inferInstanceAs (Decidable (_ ∧ _))
  | .added _ | .addReload _ _ | .upserted | .removing _ | .removed | .reloading _ => inferInstanceAs (Decidable False)

/-- an update of the subscription stores something of it -/
def Restores (id : JsString) (s : St) : Action → Prop
  | .resume i fetched _ => ∃ t ∈ s.tasks[i]?, t.restores id fetched (Removing id s.tasks)
  | _ => False

instance (id : JsString) (s : St) : (a : Action) → Decidable (Restores id s a)
  | .resume i fetched _ =>
    match h : s.tasks[i]? with
    | some t => decidable_of_iff (t.restores id fetched (Removing id s.tasks)) (by simp [Restores, h])
    | none => isFalse (by simp [Restores, h])
  | .aboutToAppear | .addSubscription _ _ | .update _ | .remove _ => inferInstanceAs (Decidable False)

/-- delete is pressed on the subscription -/
def Deletes (id : JsString) : Action → Prop
  | .remove sub => sub.id = id
  | _ => False

instance (id : JsString) : (a : Action) → Decidable (Deletes id a)
  | .remove _ => inferInstanceAs (Decidable (_ = _))
  | .aboutToAppear | .addSubscription _ _ | .update _ | .resume _ _ _ => inferInstanceAs (Decidable False)

/-- the task goes on to call `update` -/
def Task.starts (id : JsString) : Task → Bool
  | .addReload sub (.counting _) => sub.id = id
  | _ => false

/-- an update of the subscription is started -/
def StartsUpdate (id : JsString) (s : St) : Action → Prop
  | .update sub => sub.id = id
  | .resume i _ _ => (s.tasks[i]?).any (Task.starts id) = true
  | _ => False

instance (id : JsString) (s : St) : (a : Action) → Decidable (StartsUpdate id s a)
  | .update _ => inferInstanceAs (Decidable (_ = _))
  | .resume _ _ _ => inferInstanceAs (Decidable (_ = _))
  | .aboutToAppear | .addSubscription _ _ | .remove _ => inferInstanceAs (Decidable False)

/-! ## Tasks -/

theorem take_cons_drop {i : ℕ} {t : Task} {tasks : List Task} (h : tasks[i]? = some t) :
    tasks = tasks.take i ++ t :: tasks.drop (i + 1) := by
  obtain ⟨hi, rfl⟩ := List.getElem?_eq_some_iff.1 h
  rw [← List.drop_eq_getElem_cons hi, List.take_append_drop]

theorem mem_putTask {i : ℕ} {next : Option Task} {tasks : List Task} {u : Task} (h : u ∈ putTask i next tasks) :
    u ∈ tasks ∨ next = some u := by
  simp only [putTask, List.mem_append, Option.mem_toList] at h
  rcases h with h | h | h
  · exact Or.inl (List.mem_of_mem_take h)
  · exact Or.inr h
  · exact Or.inl (List.mem_of_mem_drop h)

/-- the other tasks stay -/
theorem putTask_keeps {i : ℕ} {t : Task} {tasks : List Task} (ht : tasks[i]? = some t) (next : Option Task) {u : Task}
    (hu : u ∈ tasks) (hne : u ≠ t) : u ∈ putTask i next tasks := by
  rw [take_cons_drop ht] at hu
  simp only [putTask, List.mem_append]
  rcases List.mem_append.1 hu with h | h
  · exact Or.inl h
  · rcases List.mem_cons.1 h with h | h
    · exact absurd h hne
    · exact Or.inr (Or.inr h)

/-- what an operation that goes on may change of what is stored -/
theorem advance_cases (s : St) (fetched : Option (List Profile)) (now : ℚ) (t : Task) :
    ((∀ id P, ¬ t.restores id fetched P) ∧ (∀ id, t.removes id = false) ∧
      (advance s fetched now t).1.store = s.store ∧ (advance s fetched now t).1.subscriptions = s.subscriptions) ∨
    (∃ sub, t = .fetching sub ∧ fetched.getD [] ≠ [] ∧
      (advance s fetched now t).1.store = s.store.replaceSubscription sub.id (owned sub (fetched.getD [])) ∧
      (advance s fetched now t).1.subscriptions = s.subscriptions) ∨
    (∃ sub : Subscription, t = .replaced sub ∧ (advance s fetched now t).1.store = s.store ∧
      (advance s fetched now t).1.subscriptions =
        ProfileStore.put Subscription.id { sub with updatedAt := now } s.subscriptions) ∨
    (∃ sub, t = .removing sub ∧ (advance s fetched now t).1.store = s.store ∧
      (advance s fetched now t).1.subscriptions = s.subscriptions.filter (·.id ≠ sub.id)) := by
  cases t with
  | added sub => exact Or.inl ⟨fun _ _ h => h, fun _ => rfl, rfl, rfl⟩
  | addReload sub r =>
    refine Or.inl ⟨fun _ _ h => h, fun _ => rfl, ?_, ?_⟩ <;> cases r <;> simp only [advance, startUpdate] <;> split_ifs <;>
      rfl
  | fetching sub =>
    cases fetched with
    | none => exact Or.inl ⟨fun _ _ h => h.2 rfl, fun _ => rfl, rfl, rfl⟩
    | some ps =>
      cases ps with
      | nil => exact Or.inl ⟨fun _ _ h => h.2 rfl, fun _ => rfl, rfl, rfl⟩
      | cons p ps => exact Or.inr (Or.inl ⟨sub, rfl, List.cons_ne_nil _ _, rfl, rfl⟩)
  | replaced sub => exact Or.inr (Or.inr (Or.inl ⟨sub, rfl, rfl, rfl⟩))
  | upserted => exact Or.inl ⟨fun _ _ h => h, fun _ => rfl, rfl, rfl⟩
  | removing sub => exact Or.inr (Or.inr (Or.inr ⟨sub, rfl, rfl, rfl⟩))
  | removed => exact Or.inl ⟨fun _ _ h => h, fun _ => rfl, rfl, rfl⟩
  | reloading r => refine Or.inl ⟨fun _ _ h => h, fun _ => rfl, ?_, ?_⟩ <;> cases r <;> rfl

/-- no operation becomes a `remove`, and no id is drawn while one goes on -/
theorem advance_keeps (s : St) (fetched : Option (List Profile)) (now : ℚ) (t : Task) :
    (advance s fetched now t).1.drawn = s.drawn ∧
      ∀ u, (advance s fetched now t).2 = some u → ∀ id, u.removes id = false := by
  cases t with
  | addReload sub r =>
    cases r with
    | listing read => exact ⟨rfl, fun u hu id => by cases hu; rfl⟩
    | counting profiles =>
      simp only [advance, startUpdate]
      split_ifs
      · exact ⟨rfl, fun u hu id => by cases hu⟩
      · exact ⟨rfl, fun u hu id => by cases hu; rfl⟩
  | fetching sub =>
    cases fetched with
    | none => exact ⟨rfl, fun u hu id => by cases hu; rfl⟩
    | some ps => cases ps <;> exact ⟨rfl, fun u hu id => by cases hu; rfl⟩
  | reloading r => cases r <;> exact ⟨rfl, fun u hu id => by cases hu; try rfl⟩
  | _ => exact ⟨rfl, fun u hu id => by cases hu; rfl⟩

/-! ## Profiles of a subscription -/

/-- `replaceSubscription` of another subscription leaves the profiles alone, of this one it leaves the fresh ones -/
theorem replace_owner (store : ProfileStore) (subscriptionId : JsString) (fresh : List Profile)
    (p : Profile) : p ∈ (store.replaceSubscription subscriptionId fresh).profiles ↔
      (p ∈ store.profiles ∧ p.subscriptionId ≠ subscriptionId) ∨ p ∈ fresh := by
  rw [ProfileStore.replaceSubscription_currentId]
  simp [ProfileStore.manual]

theorem owned_owner {sub : Subscription} {entries : List Profile} {p : Profile} (h : p ∈ owned sub entries) :
    p.subscriptionId = sub.id := by
  obtain ⟨q, -, rfl⟩ := List.mem_map.1 h
  rfl

/-- a download that is not empty leaves profiles of the subscription -/
theorem fresh_stored (store : ProfileStore) (sub : Subscription) {entries : List Profile} (h : entries ≠ []) :
    ∃ p ∈ (store.replaceSubscription sub.id (owned sub entries)).profiles, p.subscriptionId = sub.id := by
  obtain ⟨q, qs, rfl⟩ := List.exists_cons_of_ne_nil h
  refine ⟨{ q with subscriptionId := sub.id }, ?_, rfl⟩
  rw [replace_owner]
  exact Or.inr List.mem_cons_self

/-! ## Ids in use -/

def Reload.subs : Reload → List Subscription
  | .listing read => read
  | .counting _ => []

/-- the subscriptions that an operation holds -/
def Task.subs : Task → List Subscription
  | .added sub | .fetching sub | .replaced sub | .removing sub => [sub]
  | .addReload sub r => sub :: r.subs
  | .reloading r => r.subs
  | .upserted | .removed => []

/-- every id that is around has been drawn -/
structure Known (s : St) : Prop where
  stored : ∀ x ∈ s.subscriptions, x.id ∈ s.drawn
  listed : ∀ x ∈ s.listed, x.id ∈ s.drawn
  tasks : ∀ t ∈ s.tasks, ∀ x ∈ t.subs, x.id ∈ s.drawn

theorem known_opened (store : ProfileStore) (subscriptions : List Subscription) : Known (.opened store subscriptions) :=
  ⟨fun _ hx => List.mem_map_of_mem hx, nofun, nofun⟩

/-- an operation that goes on brings no new subscription -/
theorem known_advance {s : St} (hk : Known s) (fetched : Option (List Profile)) (now : ℚ) {t : Task} (ht : t ∈ s.tasks) :
    (∀ x ∈ (advance s fetched now t).1.subscriptions, x.id ∈ s.drawn) ∧
      (∀ x ∈ (advance s fetched now t).1.listed, x.id ∈ s.drawn) ∧
        ∀ u, (advance s fetched now t).2 = some u → ∀ x ∈ u.subs, x.id ∈ s.drawn := by
  have hsub := hk.tasks t ht
  have hend : ∀ u, (endUpdate s).2 = some u → ∀ x ∈ u.subs, x.id ∈ s.drawn := by
    intro u hu
    cases hu
    exact hk.stored
  cases t with
  | added sub =>
    refine ⟨hk.stored, hk.listed, ?_⟩
    intro u hu x hx
    cases hu
    rcases List.mem_cons.1 hx with rfl | hx
    · exact hsub x List.mem_cons_self
    · exact hk.stored x hx
  | addReload sub r =>
    have hadd : sub.id ∈ s.drawn := hsub sub List.mem_cons_self
    cases r with
    | listing read =>
      refine ⟨hk.stored, fun x hx => hsub x (List.mem_cons_of_mem _ hx), ?_⟩
      intro u hu x hx
      cases hu
      rw [List.mem_singleton.1 hx]
      exact hadd
    | counting profiles =>
      simp only [advance, startUpdate]
      split_ifs
      · exact ⟨hk.stored, hk.listed, nofun⟩
      · refine ⟨hk.stored, hk.listed, ?_⟩
        intro u hu x hx
        cases hu
        rw [List.mem_singleton.1 hx]
        exact hadd
  | fetching sub =>
    have hreplaced : ∀ u, some (Task.replaced sub) = some u → ∀ x ∈ u.subs, x.id ∈ s.drawn := by
      intro u hu
      cases hu
      exact hsub
    cases fetched with
    | none => exact ⟨hk.stored, hk.listed, hend⟩
    | some ps =>
      cases ps with
      | nil => exact ⟨hk.stored, hk.listed, hend⟩
      | cons p ps => exact ⟨hk.stored, hk.listed, hreplaced⟩
  | replaced sub =>
    refine ⟨?_, hk.listed, fun u hu => by cases hu; exact nofun⟩
    intro x hx
    rcases ProfileStore.put_cases hx with rfl | hx
    · exact hsub sub List.mem_cons_self
    · exact hk.stored x hx
  | upserted => exact ⟨hk.stored, hk.listed, hend⟩
  | removing sub =>
    exact ⟨fun x hx => hk.stored x (List.mem_of_mem_filter hx), hk.listed, fun u hu => by cases hu; exact nofun⟩
  | removed => exact ⟨hk.stored, hk.listed, hend⟩
  | reloading r =>
    cases r with
    | listing read => exact ⟨hk.stored, hsub, fun u hu => by cases hu; exact nofun⟩
    | counting profiles => exact ⟨hk.stored, hk.listed, nofun⟩

/-- an operation is started -/
theorem Known.push {s : St} (hk : Known s) {ts : List Task} (h : ∀ t ∈ ts, ∀ x ∈ t.subs, x.id ∈ s.drawn) :
    ∀ t ∈ s.tasks ++ ts, ∀ x ∈ t.subs, x.id ∈ s.drawn := by
  intro t ht
  rcases List.mem_append.1 ht with ht | ht
  · exact hk.tasks t ht
  · exact h t ht

theorem known_add {s : St} (hk : Known s) (sub : Subscription) :
    Known { s with
      subscriptions := ProfileStore.put Subscription.id sub s.subscriptions
      drawn := sub.id :: s.drawn
      tasks := s.tasks ++ [.added sub] } := by
  refine ⟨?_, ?_, ?_⟩
  · intro x hx
    rcases ProfileStore.put_cases hx with rfl | hx
    · exact List.mem_cons_self
    · exact List.mem_cons_of_mem _ (hk.stored x hx)
  · intro x hx
    exact List.mem_cons_of_mem _ (hk.listed x hx)
  · intro t ht x hx
    rcases List.mem_append.1 ht with ht | ht
    · exact List.mem_cons_of_mem _ (hk.tasks t ht x hx)
    · rw [List.mem_singleton.1 ht] at hx
      rw [List.mem_singleton.1 hx]
      exact List.mem_cons_self

theorem known_step (s : St) (a : Action) (s' : St) (hk : Known s) (h : step s a = some s') : Known s' := by
  cases a with
  | aboutToAppear =>
    cases h
    refine { hk with tasks := hk.push ?_ }
    intro t ht
    rw [List.mem_singleton.1 ht]
    exact hk.stored
  | addSubscription url newId =>
    simp only [step] at h
    split_ifs at h with hhttp hnew
    · cases h
      exact hk
    · cases h
      exact known_add hk _
  | update sub =>
    simp only [step, startUpdate] at h
    split_ifs at h with hsub hupd
    · cases h
      exact { hk with tasks := hk.push nofun }
    · cases h
      refine { hk with tasks := hk.push ?_ }
      intro t ht x hx
      rw [List.mem_singleton.1 ht] at hx
      rw [List.mem_singleton.1 hx]
      exact hk.listed sub hsub
  | remove sub =>
    simp only [step] at h
    split_ifs at h with hsub
    cases h
    refine { hk with tasks := hk.push ?_ }
    intro t ht x hx
    rw [List.mem_singleton.1 ht] at hx
    rw [List.mem_singleton.1 hx]
    exact hk.listed sub hsub
  | resume i fetched now =>
    simp only [step] at h
    split at h
    · rename_i t ht
      cases h
      obtain ⟨hstored, hlisted, hnext⟩ := known_advance hk fetched now (List.mem_of_getElem? ht)
      have hdrawn := (advance_keeps s fetched now t).1
      refine ⟨?_, ?_, ?_⟩ <;> simp only [hdrawn]
      · exact hstored
      · exact hlisted
      · intro u hu
        rcases mem_putTask hu with hu | hu
        · exact hk.tasks u hu
        · exact hnext u hu
    · cases h

/-! ## Gone for good -/

/-- no profile is left, and the subscription is off the list or will be taken off -/
structure Pending (id : JsString) (s : St) : Prop where
  profiles : ∀ p ∈ s.store.profiles, p.subscriptionId ≠ id
  subscription : Removing id s.tasks ∨ ∀ x ∈ s.subscriptions, x.id ≠ id
  drawn : id ∈ s.drawn

theorem removing_append {id : JsString} {tasks : List Task} (h : Removing id tasks) (ts : List Task) :
    Removing id (tasks ++ ts) := by
  obtain ⟨t, ht, hr⟩ := h
  exact ⟨t, List.mem_append_left _ ht, hr⟩

/-- a pending `remove` that does not go on itself stays pending -/
theorem removing_putTask {id : JsString} {tasks : List Task} {i : ℕ} {t : Task} (ht : tasks[i]? = some t)
    (hr : t.removes id = false) (h : Removing id tasks) (next : Option Task) : Removing id (putTask i next tasks) := by
  obtain ⟨u, hu, hur⟩ := h
  refine ⟨u, putTask_keeps ht _ hu ?_, hur⟩
  rintro rfl
  rw [hr] at hur
  cases hur

theorem pending_resume {id : JsString} {s : St} (hp : Pending id s) {i : ℕ} {t : Task} (ht : s.tasks[i]? = some t)
    (fetched : Option (List Profile)) (now : ℚ) (hn : ¬ t.restores id fetched (Removing id s.tasks)) :
    Pending id { (advance s fetched now t).1 with tasks := putTask i (advance s fetched now t).2 s.tasks } := by
  have hdrawn : id ∈ (advance s fetched now t).1.drawn := by
    rw [(advance_keeps s fetched now t).1]
    exact hp.drawn
  rcases advance_cases s fetched now t with ⟨-, hr, hstore, hsubs⟩ | ⟨sub, rfl, hf, hstore, hsubs⟩ |
    ⟨sub, rfl, hstore, hsubs⟩ | ⟨sub, rfl, hstore, hsubs⟩
  · refine ⟨?_, ?_, hdrawn⟩
    · simp only [hstore]
      exact hp.profiles
    · simp only [hsubs]
      exact hp.subscription.imp_left (removing_putTask ht (hr id) · _)
  · have hne : sub.id ≠ id := fun he => hn ⟨he, hf⟩
    refine ⟨?_, ?_, hdrawn⟩
    · intro p hpm
      simp only [hstore] at hpm
      rcases (replace_owner _ _ _ _).1 hpm with h | h
      · exact hp.profiles p h.1
      · rw [owned_owner h]
        exact hne
    · simp only [hsubs]
      exact hp.subscription.imp_left (removing_putTask ht rfl · _)
  · refine ⟨?_, ?_, hdrawn⟩
    · simp only [hstore]
      exact hp.profiles
    · by_cases hr : Removing id s.tasks
      · exact Or.inl (removing_putTask ht rfl hr _)
      · have hne : sub.id ≠ id := fun he => hn ⟨he, hr⟩
        right
        intro x hx
        simp only [hsubs] at hx
        rcases ProfileStore.put_cases hx with rfl | hx
        · exact hne
        · exact (hp.subscription.resolve_left hr) x hx
  · refine ⟨?_, ?_, hdrawn⟩
    · simp only [hstore]
      exact hp.profiles
    · simp only [hsubs]
      by_cases hid : sub.id = id
      · right
        intro x hx
        have hx' := (List.mem_filter.1 hx).2
        rw [hid] at hx'
        simpa using hx'
      · rcases hp.subscription with h | h
        · exact Or.inl (removing_putTask ht (decide_eq_false hid) h _)
        · exact Or.inr fun x hx => h x (List.mem_of_mem_filter hx)

theorem pending_step (id : JsString) (s : St) (a : Action) (s' : St) (hp : Pending id s) (hn : ¬ Restores id s a)
    (h : step s a = some s') : Pending id s' := by
  cases a with
  | aboutToAppear =>
    cases h
    exact ⟨hp.profiles, hp.subscription.imp_left (removing_append · _), hp.drawn⟩
  | addSubscription url newId =>
    simp only [step] at h
    split_ifs at h with hhttp hnew
    · cases h
      exact hp
    · cases h
      -- the new id is none that was in use
      have hne : newId ≠ id := fun he => hnew.2 (he ▸ hp.drawn)
      refine ⟨hp.profiles, ?_, List.mem_cons_of_mem _ hp.drawn⟩
      apply hp.subscription.imp (removing_append · _)
      intro hx x hm
      rcases ProfileStore.put_cases hm with rfl | hm
      · exact hne
      · exact hx x hm
  | update sub =>
    simp only [step, startUpdate] at h
    split_ifs at h
    · cases h
      exact ⟨hp.profiles, hp.subscription.imp_left (removing_append · _), hp.drawn⟩
    · cases h
      exact ⟨hp.profiles, hp.subscription.imp_left (removing_append · _), hp.drawn⟩
  | remove sub =>
    simp only [step] at h
    split_ifs at h
    cases h
    refine ⟨?_, hp.subscription.imp_left (removing_append · _), hp.drawn⟩
    intro p hpm
    rcases (replace_owner _ _ _ _).1 hpm with h | h
    · exact hp.profiles p h.1
    · cases h
  | resume i fetched now =>
    simp only [step] at h
    split at h
    · rename_i t ht
      cases h
      exact pending_resume hp ht fetched now fun hr => hn ⟨t, ht, hr⟩
    · cases h

/-- delete is pressed -/
theorem pending_delete {s s' : St} {sub : Subscription} (hk : Known s) (h : step s (.remove sub) = some s') :
    Pending sub.id s' := by
  simp only [step] at h
  split_ifs at h with hsub
  cases h
  have hremoving : Removing sub.id (s.tasks ++ [.removing sub]) :=
    ⟨.removing sub, List.mem_append_right _ (List.mem_singleton.2 rfl), decide_eq_true rfl⟩
  refine ⟨?_, Or.inl hremoving, hk.listed sub hsub⟩
  intro p hpm
  rcases (replace_owner _ _ _ _).1 hpm with h | h
  · exact h.2
  · cases h

/-! ## Back again -/

/-- something of the subscription is stored, and nothing in flight will take it away -/
def Back (id : JsString) (s : St) : Prop :=
  (∃ p ∈ s.store.profiles, p.subscriptionId = id) ∨ (∃ x ∈ s.subscriptions, x.id = id) ∧ ¬ Removing id s.tasks

/-- no operation that goes on becomes a `remove` -/
theorem not_removing_putTask {id : JsString} {s : St} (h : ¬ Removing id s.tasks) (i : ℕ)
    (fetched : Option (List Profile)) (now : ℚ) (t : Task) :
    ¬ Removing id (putTask i (advance s fetched now t).2 s.tasks) := by
  rintro ⟨u, hu, hr⟩
  rcases mem_putTask hu with hu | hu
  · exact h ⟨u, hu, hr⟩
  · rw [(advance_keeps s fetched now t).2 u hu id] at hr
    cases hr

/-- only a `remove` adds a task that removes -/
theorem not_removing_append {id : JsString} {tasks : List Task} (h : ¬ Removing id tasks) {ts : List Task}
    (hts : ∀ t ∈ ts, t.removes id = false) : ¬ Removing id (tasks ++ ts) := by
  rintro ⟨t, ht, hr⟩
  rcases List.mem_append.1 ht with ht | ht
  · exact h ⟨t, ht, hr⟩
  · rw [hts t ht] at hr
    cases hr

theorem back_resume {id : JsString} {s : St} (hb : Back id s) {i : ℕ} {t : Task} (ht : s.tasks[i]? = some t)
    (fetched : Option (List Profile)) (now : ℚ) :
    Back id { (advance s fetched now t).1 with tasks := putTask i (advance s fetched now t).2 s.tasks } := by
  unfold Back
  rcases advance_cases s fetched now t with ⟨-, -, hstore, hsubs⟩ | ⟨sub, rfl, hf, hstore, hsubs⟩ |
    ⟨sub, rfl, hstore, hsubs⟩ | ⟨sub, rfl, hstore, hsubs⟩ <;> simp only [hstore, hsubs]
  · exact hb.imp_right fun h => ⟨h.1, not_removing_putTask h.2 i fetched now t⟩
  · rcases hb with ⟨p, hp, hid⟩ | ⟨hx, hr⟩
    · left
      by_cases hs : sub.id = id
      · -- the old profiles go, but there are fresh ones
        rw [← hs]
        exact fresh_stored s.store sub hf
      · exact ⟨p, (replace_owner _ _ _ _).2 (Or.inl ⟨hp, fun he => hs (he.symm.trans hid)⟩), hid⟩
    · exact Or.inr ⟨hx, not_removing_putTask hr i fetched now _⟩
  · exact hb.imp_right fun h => ⟨ProfileStore.put_keeps _ _ h.1, not_removing_putTask h.2 i fetched now _⟩
  · apply hb.imp_right
    rintro ⟨⟨x, hx, hid⟩, hr⟩
    refine ⟨⟨x, List.mem_filter.2 ⟨hx, ?_⟩, hid⟩, not_removing_putTask hr i fetched now _⟩
    have hne : sub.id ≠ id := fun he => hr ⟨.removing sub, List.mem_of_getElem? ht, decide_eq_true he⟩
    simpa [hid] using hne.symm

theorem back_step (id : JsString) (s : St) (a : Action) (s' : St) (hb : Back id s) (hd : ¬ Deletes id a)
    (h : step s a = some s') : Back id s' := by
  cases a with
  | aboutToAppear =>
    cases h
    exact hb.imp_right fun h => ⟨h.1, not_removing_append h.2 (by simp [Task.removes])⟩
  | addSubscription url newId =>
    simp only [step] at h
    split_ifs at h
    · cases h
      exact hb
    · cases h
      exact hb.imp_right fun h => ⟨ProfileStore.put_keeps _ _ h.1, not_removing_append h.2 (by simp [Task.removes])⟩
  | update sub =>
    simp only [step, startUpdate] at h
    split_ifs at h
    · cases h
      exact hb.imp_right fun h => ⟨h.1, not_removing_append h.2 (by simp)⟩
    · cases h
      exact hb.imp_right fun h => ⟨h.1, not_removing_append h.2 (by simp [Task.removes])⟩
  | remove sub =>
    have hne : sub.id ≠ id := hd
    simp only [step] at h
    split_ifs at h
    cases h
    rcases hb with ⟨p, hp, hid⟩ | ⟨hx, hr⟩
    · left
      refine ⟨p, (replace_owner _ _ _ _).2 (Or.inl ⟨hp, ?_⟩), hid⟩
      exact fun he => hne (he.symm.trans hid)
    · exact Or.inr ⟨hx, not_removing_append hr (by simpa [Task.removes] using hne)⟩
  | resume i fetched now =>
    simp only [step] at h
    split at h
    · rename_i t ht
      cases h
      exact back_resume hb ht fetched now
    · cases h

/-- an update has stored something -/
theorem restores_back {id : JsString} {s s' : St} {a : Action} (hr : Restores id s a) (h : step s a = some s') :
    Back id s' := by
  cases a with
  | resume i fetched now =>
    obtain ⟨t, ht, hrt⟩ := hr
    simp only [step, Option.mem_def.1 ht] at h
    cases h
    unfold Back
    rcases advance_cases s fetched now t with ⟨hn, -⟩ | ⟨sub, rfl, hf, hstore, -⟩ | ⟨sub, rfl, hstore, hsubs⟩ |
      ⟨sub, rfl, -⟩
    · exact absurd hrt (hn id _)
    · simp only [hstore, ← hrt.1]
      exact Or.inl (fresh_stored s.store sub hf)
    · simp only [hsubs]
      refine Or.inr ⟨⟨{ sub with updatedAt := now }, ProfileStore.mem_put _ _ _, hrt.1⟩, ?_⟩
      exact not_removing_putTask hrt.2 i fetched now _
    · exact hrt.elim
  | _ => exact hr.elim

/-! ## Main result -/

/-- **A deleted subscription is gone, exactly when no update of it stores anything after the delete.** The run up to the
last time that delete is pressed on the subscription, that step, and the rest of the run, in which all operations come
to their ends. -/
theorem deleted_iff (store : ProfileStore) (subscriptions : List Subscription) (before after : List Action)
    (sub : Subscription) (s1 s2 s3 : St) (h1 : Steps.run step (.opened store subscriptions) before = some s1)
    (h2 : step s1 (.remove sub) = some s2) (h3 : Steps.run step s2 after = some s3)
    (hlast : ∀ a ∈ after, ¬ Deletes sub.id a) (hend : s3.tasks = []) :
    Gone sub.id s3 ↔ Steps.Along step (fun s a => ¬ Restores sub.id s a) s2 after := by
  constructor
  · intro hgone
    by_contra hn
    obtain ⟨as, a, bs, t1, t2, rfl, -, -, hr, hstep, hrest⟩ := Steps.not_along hn h3
    have hlast' : ∀ b ∈ bs, ¬ Deletes sub.id b := fun b hb => hlast b (by simp [hb])
    have hback : Back sub.id s3 := Steps.run_inv (back_step sub.id) (restores_back (not_not.1 hr) hstep)
      (Steps.along_of_forall hlast') hrest
    rcases hback with ⟨p, hp, hid⟩ | ⟨⟨x, hx, hid⟩, -⟩
    · exact hgone.2 p hp hid
    · exact hgone.1 x hx hid
  · intro hal
    have hk : Known s1 := Steps.run_inv' known_step (known_opened store subscriptions) h1
    have hp : Pending sub.id s3 := Steps.run_inv (pending_step sub.id) (pending_delete hk h2) hal h3
    refine ⟨?_, hp.profiles⟩
    rcases hp.subscription with ⟨t, ht, -⟩ | h
    · rw [hend] at ht
      cases ht
    · exact h

def testSub : Subscription := ⟨js "1", js "https://a", 0, by decide⟩

/-- a subscription is added, and its first download is under way -/
def added : List Action :=
  [.addSubscription (js "https://a") (js "1"), .resume 0 none 0, .resume 0 none 0, .resume 0 none 0]

/-- `remove` runs to its end, and then the download fails -/
def failedDownload : List Action := List.replicate 4 (.resume 1 none 0) ++ List.replicate 3 (.resume 0 none 0)

theorem deleted_iff_failed : ∃ s, Steps.run step (.opened .empty []) (added ++ .remove testSub :: failedDownload) = some s ∧
    Gone (js "1") s :=
  ⟨_, rfl, (deleted_iff .empty [] added failedDownload testSub _ _ _ rfl rfl rfl (by decide) rfl).2 (by decide)⟩

/-- `remove` runs to its end, and then the download brings a profile -/
def lateDownload : List Action :=
  List.replicate 4 (.resume 1 none 0) ++ List.replicate 5 (.resume 0 (some [ProfileStore.testProfile "p"]) 7)

/-- **A deleted subscription comes back**, with its profiles, although no update of it was started after the delete. -/
theorem resurrected : ¬ ∀ (store : ProfileStore) (subscriptions : List Subscription) (before after : List Action)
    (sub : Subscription) (s1 s2 s3 : St), Steps.run step (.opened store subscriptions) before = some s1 →
    step s1 (.remove sub) = some s2 → Steps.run step s2 after = some s3 →
    Steps.Along step (fun s a => ¬ StartsUpdate sub.id s a) s2 after → s3.tasks = [] → Gone sub.id s3 := by
  intro h
  have hgone := h .empty [] added lateDownload testSub _ _ _ rfl rfl rfl (by decide) rfl
  revert hgone
  decide

end SubscriptionPage

end ShadowsocksOhos
