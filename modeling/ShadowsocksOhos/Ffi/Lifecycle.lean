/-
The life of the instance, over every interleaving of calls from any threads.

The events of the log are the places where the calls take effect. Replayed in order on an empty library they give the
stored instance and the stat address at every moment (`storedOf`, `statOf`), so the log orders the calls, and what a
call says is read off the log around its own event.

- `At`: what is known of a call, by its next step. A call that does not hold the lock knows nothing of the stored
instance or of the live runtimes, so it is not disturbed by the steps of others (`AtPc.frame`).
- `Inv`: all calls together. The holder of the lock is the only one to build, store or drop a runtime.
- `advance_at`: one step of one call, by cases on where it stands. `inv_step`, `inv_run`: steps and runs.
- `instance_lifecycle`: the guarantees of the C ABI.
-/
import ShadowsocksOhos.Ffi.Threads

namespace ShadowsocksOhos

variable {α : Type}

/-! ## Reading the log -/

def storedStep (s : Option ℕ) : Event α → Option ℕ
  | .stored id _ => some id
  | .taken _ _ => none
  | _ => s

/-- the instance that is stored after the events of a log -/
def storedOf (log : List (Event α)) : Option ℕ := log.foldl storedStep none

def statStep (s : Option α) : Event α → Option α
  | .stat _ addr => addr
  | _ => s

/-- the address set by the last successful `sslocal_set_stat_address` in a log -/
def statOf (log : List (Event α)) : Option α := log.foldl statStep none

/-- the call that an event belongs to -/
def Event.by : Event α → Option ℕ
  | .call _ _ => none
  | .looked id _ => some id
  | .attached id => some id
  | .stored id _ => some id
  | .taken id _ => some id
  | .stat id _ => some id
  | .ret id _ => some id

/-- the events that change the stored instance or the stat address -/
def Event.Changes : Event α → Prop
  | .stored _ _ => True
  | .taken _ _ => True
  | .stat _ _ => True
  | _ => False

/-- the call has changed neither the stored instance nor the stat address -/
def NoChange (log : List (Event α)) (id : ℕ) : Prop := ∀ e ∈ log, e.by = some id → ¬ e.Changes

/-- the call has begun and has not returned -/
def InProgress (log : List (Event α)) (id : ℕ) : Prop := id < log.length ∧ ∀ code, Event.ret id code ∉ log

/-- an event of the log, with the log before it -/
def Before (log : List (Event α)) (e : Event α) (p : List (Event α) → Prop) : Prop :=
  ∃ pre post, log = pre ++ e :: post ∧ p pre

theorem storedOf_snoc (log : List (Event α)) (e : Event α) : storedOf (log ++ [e]) = storedStep (storedOf log) e := by
  simp [storedOf]

theorem statOf_snoc (log : List (Event α)) (e : Event α) : statOf (log ++ [e]) = statStep (statOf log) e := by
  simp [statOf]

theorem Before.append {log : List (Event α)} {e : Event α} {p : List (Event α) → Prop} (h : Before log e p)
    (es : List (Event α)) : Before (log ++ es) e p := by
  obtain ⟨pre, post, rfl, hp⟩ := h
  exact ⟨pre, post ++ es, by simp, hp⟩

theorem before_last {log : List (Event α)} {e : Event α} {p : List (Event α) → Prop} (h : p log) :
    Before (log ++ [e]) e p := ⟨log, [], rfl, h⟩

/-! ## What a call has achieved -/

/-- what a forwarder was started with, and what a spec asks for -/
def Forwarder.target (f : Forwarder) : PluginKind × Text × UInt16 := (f.kind, f.host, f.port)

def PluginSpec.target (s : PluginSpec) : PluginKind × Text × UInt16 := (s.kind, s.host, s.port)

/-- the config has the stat address that was stored when the call `id` read it -/
def Attached (log : List (Event α)) (id : ℕ) (config : Config α) : Prop :=
  Before log (.attached id) fun pre => id < pre.length ∧ config.localStatAddr = statOf pre

/-- the runtime carries the forwarders of the call's config and the core with the stat address -/
def Carries (P : Parsers α) (log : List (Event α)) (id : ℕ) (rt : Runtime α) : Prop :=
  ∃ t c j config, log[id]? = some (.call t c) ∧ c.startJob P = some (.ok j) ∧
    rt.forwarders.map Forwarder.target = j.specs.map PluginSpec.target ∧ rt.core = some config ∧
    Attached log id config

/-- what a call that returns has done -/
def Result (P : Parsers α) (log : List (Event α)) (id : ℕ) (code : Int) : EntryCall → Prop
  | .start _ | .startTunFd _ _ => code = 0 ∧ (∃ rt, Event.stored id rt ∈ log) ∨ code ≠ 0 ∧ NoChange log id
  | .stop =>
    code = 0 ∧ (∃ i, Event.taken id i ∈ log) ∨ code ≠ 0 ∧ Event.looked id false ∈ log ∧ NoChange log id
  | .isRunning => ∃ found, Event.looked id found ∈ log ∧ code = (if found then 1 else 0) ∧ NoChange log id
  | .setStatAddress arg =>
    code = 0 ∧ (∃ addr, statArg P arg = .ok addr ∧ Event.stat id addr ∈ log) ∨ code ≠ 0 ∧ NoChange log id

/-- no start is at work on a runtime: only the stored instance is alive, as it was stored -/
def Settled (g : Shared α) : Prop :=
  match g.stored with
  | none => g.live = []
  | some i => ∃ rt, g.live = [(i, rt)] ∧ Event.stored i rt ∈ g.log

/-- the call `id` is building the runtime `rt` for `j` -/
structure Building (P : Parsers α) (g : Shared α) (id : ℕ) (c : EntryCall) (j : StartJob) (rt : Runtime α) : Prop where
  job : c.startJob P = some (.ok j)
  noChange : NoChange g.log id
  stored : g.stored = none
  live : g.live = [(id, rt)]

/-- all forwarders of the job have been started -/
def Complete (j : StartJob) (rt : Runtime α) : Prop :=
  rt.forwarders.map Forwarder.target = j.specs.map PluginSpec.target

/-- a call fits the job it wants the lock for -/
def Fits (P : Parsers α) (c : EntryCall) : Job → Prop
  | .start j => c.startJob P = some (.ok j)
  | .stop => c = .stop
  | .isRunning => c = .isRunning

/-- what is known of a call by its next step -/
def AtPc (P : Parsers α) (g : Shared α) (id : ℕ) (c : EntryCall) : Pc α → Prop
  | .idle => True
  | .begun => NoChange g.log id
  | .putStat addr => NoChange g.log id ∧ ∃ arg, c = .setStatAddress arg ∧ statArg P arg = .ok addr
  | .wantLock job => NoChange g.log id ∧ Fits P c job
  | .locked job => NoChange g.log id ∧ Fits P c job ∧ Settled g
  | .build j => NoChange g.log id ∧ c.startJob P = some (.ok j) ∧ g.stored = none ∧ g.live = []
  | .forward _ _ specs => ∃ j rt, Building P g id c j rt ∧
      rt.forwarders.map Forwarder.target ++ specs.map PluginSpec.target = j.specs.map PluginSpec.target
  | .attach _ config => (∃ j rt, Building P g id c j rt ∧ Complete j rt) ∧ config.localStatAddr = none
  | .prepare _ config => (∃ j rt, Building P g id c j rt ∧ Complete j rt) ∧ Attached g.log id config
  | .spawn config => (∃ j rt, Building P g id c j rt ∧ Complete j rt) ∧ Attached g.log id config
  | .store => ∃ j rt config, Building P g id c j rt ∧ Complete j rt ∧ rt.core = some config ∧ Attached g.log id config
  | .abort code => code ≠ 0 ∧ ∃ j rt, Building P g id c j rt
  | .unlock code => Result P g.log id code c ∧ Settled g
  | .leave code => Result P g.log id code c

/-- does a call at this step hold the lock? -/
def Pc.holds : Pc α → Bool
  | .idle | .begun | .wantLock _ | .leave _ | .putStat _ => false
  | _ => true

/-- a call in progress -/
structure InCall (P : Parsers α) (g : Shared α) (t : ℕ) (th : Thread α) : Prop where
  call : g.log[th.id]? = some (.call t th.call)
  inProgress : InProgress g.log th.id
  at_ : AtPc P g th.id th.call th.pc

def Pc.isIdle : Pc α → Bool
  | .idle => true
  | _ => false

/-- what is known of the log -/
structure LogOk (P : Parsers α) (g : Shared α) : Prop where
  ids : ∀ e ∈ g.log, ∀ i, e.by = some i → i < g.log.length
  stored : g.stored = storedOf g.log
  statAddr : g.statAddr = statOf g.log
  stores : ∀ id rt, Event.stored id rt ∈ g.log →
    Before g.log (.stored id rt) fun pre => storedOf pre = none ∧ Carries P pre id rt
  takes : ∀ id i, Event.taken id i ∈ g.log → Before g.log (.taken id i) fun pre => storedOf pre = some i
  looks : ∀ id found, Event.looked id found ∈ g.log →
    Before g.log (.looked id found) fun pre => (storedOf pre).isSome = found
  rets : ∀ id code, Event.ret id code ∈ g.log →
    ∃ t c, g.log[id]? = some (.call t c) ∧ Result P g.log id code c

structure Inv (P : Parsers α) (w : World α) : Prop where
  calls : ∀ t, (w.threads t).pc.isIdle = false → InCall P w.shared t (w.threads t)
  lock : ∀ t, (w.threads t).pc.holds = true ↔ w.lock = some t
  settled : w.lock = none → Settled w.shared
  log : LogOk P w.shared

/-! ## Steps of other calls -/

/-- what a step of the call `id` may do: add events of its own, and touch the stored instance and the live runtimes only
under the lock -/
structure Extends (g g' : Shared α) (id : ℕ) (holds : Bool) : Prop where
  log : ∃ es, g'.log = g.log ++ es ∧ ∀ e ∈ es, ∀ i, e.by = some i → i = id
  stored : holds = false → g'.stored = g.stored
  live : holds = false → g'.live = g.live

variable {P : Parsers α} {g g' : Shared α} {id id' : ℕ} {c : EntryCall} {h0 : Bool}

theorem NoChange.frame (h : NoChange g.log id') (he : Extends g g' id h0) (hne : id' ≠ id) : NoChange g'.log id' := by
  obtain ⟨es, hlog, hes⟩ := he.log
  intro e hm hby
  rw [hlog] at hm
  rcases List.mem_append.1 hm with hm | hm
  · exact h e hm hby
  · exact absurd (hes e hm _ hby) hne

theorem InProgress.frame (h : InProgress g.log id') (he : Extends g g' id h0) (hne : id' ≠ id) :
    InProgress g'.log id' := by
  obtain ⟨es, hlog, hes⟩ := he.log
  rw [hlog]
  refine ⟨lt_of_lt_of_le h.1 (by simp), fun code hm => ?_⟩
  rcases List.mem_append.1 hm with hm | hm
  · exact h.2 code hm
  · exact absurd (hes _ hm _ rfl) hne

theorem Extends.mem (he : Extends g g' id h0) {e : Event α} (hm : e ∈ g.log) : e ∈ g'.log := by
  obtain ⟨es, hlog, -⟩ := he.log
  rw [hlog]
  exact List.mem_append_left _ hm

theorem Extends.before (he : Extends g g' id h0) {e : Event α} {p : List (Event α) → Prop} (h : Before g.log e p) :
    Before g'.log e p := by
  obtain ⟨es, hlog, -⟩ := he.log
  rw [hlog]
  exact h.append es

theorem Extends.getElem (he : Extends g g' id h0) {e : Event α} {i : ℕ} (h : g.log[i]? = some e) :
    g'.log[i]? = some e := by
  obtain ⟨es, hlog, -⟩ := he.log
  rw [hlog, List.getElem?_append_left (List.getElem?_eq_some_iff.1 h).1]
  exact h

theorem Result.frame {code : Int} (h : Result P g.log id' code c) (he : Extends g g' id h0) (hne : id' ≠ id) :
    Result P g'.log id' code c := by
  cases c with
  | start _ =>
    rcases h with ⟨hc, rt, hm⟩ | ⟨hc, hn⟩
    · exact Or.inl ⟨hc, rt, he.mem hm⟩
    · exact Or.inr ⟨hc, hn.frame he hne⟩
  | startTunFd _ _ =>
    rcases h with ⟨hc, rt, hm⟩ | ⟨hc, hn⟩
    · exact Or.inl ⟨hc, rt, he.mem hm⟩
    · exact Or.inr ⟨hc, hn.frame he hne⟩
  | stop =>
    rcases h with ⟨hc, i, hm⟩ | ⟨hc, hm, hn⟩
    · exact Or.inl ⟨hc, i, he.mem hm⟩
    · exact Or.inr ⟨hc, he.mem hm, hn.frame he hne⟩
  | isRunning =>
    obtain ⟨found, hm, hc, hn⟩ := h
    exact ⟨found, he.mem hm, hc, hn.frame he hne⟩
  | setStatAddress arg =>
    rcases h with ⟨hc, addr, ha, hm⟩ | ⟨hc, hn⟩
    · exact Or.inl ⟨hc, addr, ha, he.mem hm⟩
    · exact Or.inr ⟨hc, hn.frame he hne⟩

theorem Settled.frame (h : Settled g) (he : Extends g g' id h0) (hs : g'.stored = g.stored) (hl : g'.live = g.live) :
    Settled g' := by
  unfold Settled at h ⊢
  rw [hs, hl]
  cases hst : g.stored with
  | none => rw [hst] at h; exact h
  | some i =>
    rw [hst] at h
    obtain ⟨rt, hlive, hm⟩ := h
    exact ⟨rt, hlive, he.mem hm⟩

theorem Building.frame {j : StartJob} {rt : Runtime α} (h : Building P g id' c j rt) (he : Extends g g' id h0)
    (hne : id' ≠ id) (hs : g'.stored = g.stored) (hl : g'.live = g.live) : Building P g' id' c j rt :=
  ⟨h.job, h.noChange.frame he hne, hs.trans h.stored, hl.trans h.live⟩

/-- **Frame rule.** A call that holds the lock is not disturbed by a call that does not, and a call without the lock by
none. -/
theorem AtPc.frame {pc : Pc α} (h : AtPc P g id' c pc) (he : Extends g g' id h0) (hne : id' ≠ id)
    (hh : pc.holds = true → g'.stored = g.stored ∧ g'.live = g.live) : AtPc P g' id' c pc := by
  cases pc with
  | idle => trivial
  | begun => exact NoChange.frame h he hne
  | putStat addr => exact ⟨h.1.frame he hne, h.2⟩
  | wantLock job => exact ⟨h.1.frame he hne, h.2⟩
  | locked job =>
    obtain ⟨hs, hl⟩ := hh rfl
    exact ⟨h.1.frame he hne, h.2.1, h.2.2.frame he hs hl⟩
  | build j =>
    obtain ⟨hs, hl⟩ := hh rfl
    exact ⟨h.1.frame he hne, h.2.1, hs.trans h.2.2.1, hl.trans h.2.2.2⟩
  | forward p json specs =>
    obtain ⟨hs, hl⟩ := hh rfl
    obtain ⟨j, rt, hb, hf⟩ := h
    exact ⟨j, rt, hb.frame he hne hs hl, hf⟩
  | attach p config =>
    obtain ⟨hs, hl⟩ := hh rfl
    obtain ⟨⟨j, rt, hb, hf⟩, hc⟩ := h
    exact ⟨⟨j, rt, hb.frame he hne hs hl, hf⟩, hc⟩
  | prepare p config =>
    obtain ⟨hs, hl⟩ := hh rfl
    obtain ⟨⟨j, rt, hb, hf⟩, hc⟩ := h
    exact ⟨⟨j, rt, hb.frame he hne hs hl, hf⟩, he.before hc⟩
  | spawn config =>
    obtain ⟨hs, hl⟩ := hh rfl
    obtain ⟨⟨j, rt, hb, hf⟩, hc⟩ := h
    exact ⟨⟨j, rt, hb.frame he hne hs hl, hf⟩, he.before hc⟩
  | store =>
    obtain ⟨hs, hl⟩ := hh rfl
    obtain ⟨j, rt, config, hb, hf, hcore, hc⟩ := h
    exact ⟨j, rt, config, hb.frame he hne hs hl, hf, hcore, he.before hc⟩
  | abort code =>
    obtain ⟨hs, hl⟩ := hh rfl
    obtain ⟨hc, j, rt, hb⟩ := h
    exact ⟨hc, j, rt, hb.frame he hne hs hl⟩
  | unlock code =>
    obtain ⟨hs, hl⟩ := hh rfl
    exact ⟨h.1.frame he hne, h.2.frame he hs hl⟩
  | leave code => exact Result.frame h he hne

/-- a call in progress, across a step of another call -/
theorem InCall.frame {t : ℕ} {th : Thread α} (h : InCall P g t th) (he : Extends g g' id h0) (hne : th.id ≠ id)
    (hh : th.pc.holds = true → g'.stored = g.stored ∧ g'.live = g.live) : InCall P g' t th :=
  ⟨he.getElem h.call, h.inProgress.frame he hne, h.at_.frame he hne hh⟩

/-! ## The log after a step -/

theorem NoChange.snoc {log : List (Event α)} (h : NoChange log id) {e : Event α} (he : ¬ e.Changes) :
    NoChange (log ++ [e]) id := by
  intro e' hm hby
  rcases List.mem_append.1 hm with hm | hm
  · exact h e' hm hby
  · rw [List.mem_singleton.1 hm]; exact he

theorem InProgress.snoc {log : List (Event α)} (h : InProgress log id) {e : Event α} (he : ∀ i code, e ≠ .ret i code) :
    InProgress (log ++ [e]) id := by
  refine ⟨lt_of_lt_of_le h.1 (by simp), fun code hm => ?_⟩
  rcases List.mem_append.1 hm with hm | hm
  · exact h.2 code hm
  · exact he _ _ (List.mem_singleton.1 hm).symm

/-- returning does not change what a call has done -/
theorem Result.ret {log : List (Event α)} {code : Int} (h : Result P log id code c) (code' : Int) :
    Result P (log ++ [.ret id code']) id code c := by
  have hmem : ∀ {e : Event α}, e ∈ log → e ∈ log ++ [.ret id code'] := fun h => List.mem_append_left _ h
  have hn : NoChange log id → NoChange (log ++ [.ret id code']) id := fun h => h.snoc fun hf => hf
  cases c with
  | start _ => exact h.imp (fun ⟨hc, rt, hm⟩ => ⟨hc, rt, hmem hm⟩) (fun ⟨hc, h⟩ => ⟨hc, hn h⟩)
  | startTunFd _ _ => exact h.imp (fun ⟨hc, rt, hm⟩ => ⟨hc, rt, hmem hm⟩) (fun ⟨hc, h⟩ => ⟨hc, hn h⟩)
  | stop => exact h.imp (fun ⟨hc, i, hm⟩ => ⟨hc, i, hmem hm⟩) (fun ⟨hc, hm, h⟩ => ⟨hc, hmem hm, hn h⟩)
  | isRunning => exact h.imp fun found ⟨hm, hc, h⟩ => ⟨hmem hm, hc, hn h⟩
  | setStatAddress arg =>
    exact h.imp (fun ⟨hc, addr, ha, hm⟩ => ⟨hc, addr, ha, hmem hm⟩) (fun ⟨hc, h⟩ => ⟨hc, hn h⟩)

/-- what has to be known of an event when it is noted -/
def EventOk (P : Parsers α) (g : Shared α) : Event α → Prop
  | .stored id rt => g.stored = none ∧ Carries P g.log id rt
  | .taken _ i => g.stored = some i
  | .looked _ found => g.stored.isSome = found
  | .ret id code => ∃ t c, g.log[id]? = some (.call t c) ∧ Result P g.log id code c
  | _ => True

theorem extends_snoc {e : Event α} (hlog : g'.log = g.log ++ [e]) (hby : ∀ i, e.by = some i → i = id) :
    Extends g g' id true :=
  ⟨⟨[e], hlog, fun e' hm => by rw [List.mem_singleton.1 hm]; exact hby⟩, by simp, by simp⟩

/-- a step that changes neither the log nor what the log tells -/
theorem LogOk.congr (h : LogOk P g) (hlog : g'.log = g.log) (hs : g'.stored = g.stored)
    (ha : g'.statAddr = g.statAddr) : LogOk P g' := by
  obtain ⟨h0, h1, h2, h3, h4, h5, h6⟩ := h
  refine ⟨?_, ?_, ?_, ?_, ?_, ?_, ?_⟩ <;> rw [hlog]
  · exact h0
  · rw [hs]; exact h1
  · rw [ha]; exact h2
  · exact h3
  · exact h4
  · exact h5
  · exact h6

/-- a step that notes an event, and does to the state what the event says -/
theorem LogOk.snoc (h : LogOk P g) {e : Event α} (hlog : g'.log = g.log ++ [e])
    (hs : g'.stored = storedStep g.stored e) (ha : g'.statAddr = statStep g.statAddr e) (hok : EventOk P g e)
    (hnew : ∀ i, e.by = some i → InProgress g.log i) : LogOk P g' := by
  have hmem : ∀ {e' : Event α}, e' ∈ g'.log → e' ∈ g.log ∨ e' = e := fun hm => by
    rw [hlog] at hm
    exact (List.mem_append.1 hm).imp_right List.mem_singleton.1
  have hold : ∀ {e' p}, Before g.log e' p → Before g'.log e' p := fun hb => by rw [hlog]; exact hb.append _
  refine ⟨fun e' hm i hby => ?_, ?_, ?_, fun id rt hm => ?_, fun id i hm => ?_, fun id found hm => ?_,
    fun id code hm => ?_⟩
  · have hlen : g'.log.length = g.log.length + 1 := by simp [hlog]
    rcases hmem hm with hm | rfl
    · have := h.ids e' hm i hby
      omega
    · have := (hnew i hby).1
      omega
  · rw [hs, hlog, storedOf_snoc, h.stored]
  · rw [ha, hlog, statOf_snoc, h.statAddr]
  · rcases hmem hm with hm | rfl
    · exact hold (h.stores id rt hm)
    · rw [hlog]; exact before_last ⟨h.stored ▸ hok.1, hok.2⟩
  · rcases hmem hm with hm | rfl
    · exact hold (h.takes id i hm)
    · rw [hlog]; exact before_last (h.stored ▸ hok)
  · rcases hmem hm with hm | rfl
    · exact hold (h.looks id found hm)
    · rw [hlog]; exact before_last (h.stored ▸ hok)
  · rcases hmem hm with hm | rfl
    · obtain ⟨t, c, hcall, hr⟩ := h.rets id code hm
      -- the event is not one of a call that has returned
      have hext : ∃ k, id ≠ k ∧ Extends g g' k true := by
        cases hby : e.by with
        | none => exact ⟨id + 1, by omega, extends_snoc hlog fun i hi => by rw [hby] at hi; cases hi⟩
        | some i =>
          refine ⟨i, fun he => (hnew i hby).2 code (he ▸ hm), extends_snoc hlog fun j hj => ?_⟩
          rw [hby] at hj
          exact (Option.some.inj hj).symm
      obtain ⟨k, hne, he⟩ := hext
      exact ⟨t, c, he.getElem hcall, hr.frame he hne⟩
    · obtain ⟨t, c, hcall, hr⟩ := hok
      refine ⟨t, c, ?_, hlog ▸ hr.ret code⟩
      rw [hlog, List.getElem?_append_left (List.getElem?_eq_some_iff.1 hcall).1]
      exact hcall

/-! ## One step of one call -/

/-- a step of a call that neither takes nor releases the lock leaves it in order -/
structure Advances (P : Parsers α) (g' : Shared α) (id : ℕ) (c : EntryCall) (pc pc' : Pc α) : Prop where
  at_ : AtPc P g' id c pc'
  log : LogOk P g'
  inProgress : InProgress g'.log id
  holds : pc'.holds = pc.holds
  busy : pc'.isIdle = false

/-- the errors of a start before it takes the lock -/
theorem startJob_code {f : Failure} (h : c.startJob P = some (.error f)) : f.code ≠ 0 := by
  have harg : ∀ {what arg} {f : Failure}, cstrArg what arg = .error f → f.code ≠ 0 := fun {what arg f} h => by
    cases arg <;> cases h <;> exact (by decide : sslocalErrInvalidArg ≠ 0)
  have hparse : ∀ {configJson} {f : Failure}, parseConfigJson P configJson = .error f → f.code ≠ 0 :=
    fun {configJson f} h => by
      unfold parseConfigJson at h
      cases ha : cstrArg "config_json".toList configJson with
      | error f' => rw [ha] at h; cases h; exact harg ha
      | ok text =>
        rw [ha] at h
        cases hj : P.json text with
        | error e => simp only [hj, bind, Except.bind] at h; cases h; exact (by decide : sslocalErrBadConfig ≠ 0)
        | ok json => simp only [hj, bind, Except.bind] at h; cases h
  have hjob : ∀ {configJson prepare} {f : Failure}, ShadowsocksOhos.startJob P configJson prepare = .error f →
      f.code ≠ 0 := fun {configJson prepare f} h => by
    unfold ShadowsocksOhos.startJob at h
    cases hj : parseConfigJson P configJson with
    | error f' => rw [hj] at h; cases h; exact hparse hj
    | ok json =>
      rw [hj] at h
      cases hs : extractPluginSpecs json with
      | error f' =>
        simp only [hs, bind, Except.bind] at h
        cases h
        rw [extractPluginSpecs_code hs]
        decide
      | ok specs => simp only [hs, bind, Except.bind] at h; cases h
  cases c with
  | start configJson => exact hjob (Option.some.inj h)
  | startTunFd configJson tunFd =>
    have h := Option.some.inj h
    split_ifs at h
    · cases h; exact (by decide : sslocalErrInvalidArg ≠ 0)
    · exact hjob h
  | stop => cases h
  | isRunning => cases h
  | setStatAddress arg => cases h

theorem statArg_code {arg : CArg} {f : Failure} (h : statArg P arg = .error f) : f.code ≠ 0 := by
  cases arg with
  | null => cases h
  | notUtf8 e => cases h; exact (by decide : sslocalErrInvalidArg ≠ 0)
  | text s =>
    simp only [statArg, cstrArg, bind, Except.bind] at h
    split_ifs at h
    cases ha : P.addr s with
    | ok addr => rw [ha] at h; cases h
    | error e => rw [ha] at h; cases h; exact (by decide : sslocalErrInvalidArg ≠ 0)

theorem prepare_code {answers : TunAnswers} {p : Prepare} {config : Config α} {f : Failure}
    (h : p.apply answers config = .error f) : f.code ≠ 0 := by
  cases p with
  | plain => cases h
  | tun tunFd =>
    simp only [Prepare.apply, attachTun] at h
    split at h
    · cases h; exact (by decide : sslocalErrBadConfig ≠ 0)
    · split at h
      · cases h; exact (by decide : sslocalErrInvalidArg ≠ 0)
      · cases h

theorem prepare_statAddr {answers : TunAnswers} {p : Prepare} {config config' : Config α}
    (h : p.apply answers config = .ok config') : config'.localStatAddr = config.localStatAddr := by
  cases p with
  | plain => cases h; rfl
  | tun tunFd => exact attachTun_statAddr h

/-- the config that the core's parser returns has no stat address of its own -/
def LoadsNoStat (x : Choice α) : Prop := ∀ json config, x.load json = .ok config → config.localStatAddr = none

/-- nothing is noted, and the stored instance and the stat address stay -/
theorem LogOk.advances {pc pc' : Pc α} (h : LogOk P g) (hr : InProgress g.log id) (hlog : g'.log = g.log)
    (hs : g'.stored = g.stored) (ha : g'.statAddr = g.statAddr) (hat : AtPc P g' id c pc')
    (hh : pc'.holds = pc.holds) (hb : pc'.isIdle = false) : Advances P g' id c pc pc' :=
  ⟨hat, h.congr hlog hs ha, by rw [hlog]; exact hr, hh, hb⟩

/-- an event of the call is noted -/
theorem LogOk.advancesNote {pc pc' : Pc α} (h : LogOk P g) (hr : InProgress g.log id) {e : Event α}
    (hlog : g'.log = g.log ++ [e]) (hs : g'.stored = storedStep g.stored e) (ha : g'.statAddr = statStep g.statAddr e)
    (hby : e.by = some id) (hret : ∀ i code, e ≠ .ret i code) (hok : EventOk P g e) (hat : AtPc P g' id c pc')
    (hh : pc'.holds = pc.holds) (hb : pc'.isIdle = false) : Advances P g' id c pc pc' := by
  refine ⟨hat, h.snoc hlog hs ha hok fun i hi => ?_, by rw [hlog]; exact hr.snoc hret, hh, hb⟩
  rw [hby] at hi
  exact Option.some.inj hi ▸ hr

theorem advance_begun {x : Choice α} {pc' : Pc α} (hl : LogOk P g) (hr : InProgress g.log id)
    (hat : AtPc P g id c .begun) (h : advance P x id c g .begun = some (pc', g')) :
    Advances P g' id c .begun pc' := by
  have hok : ∀ j, c.startJob P = some (.ok j) → some (Pc.wantLock (.start j), g) = some (pc', g') →
      Advances P g' id c .begun pc' := by
    intro j hj h
    cases h
    exact hl.advances hr rfl rfl rfl ⟨hat, hj⟩ rfl rfl
  have herror : ∀ f : Failure, Result P g.log id f.code c → some (Pc.leave f.code, g.setLastError f) = some (pc', g') →
      Advances P g' id c .begun pc' := by
    intro f hres h
    cases h
    exact hl.advances hr rfl rfl rfl hres rfl rfl
  cases c with
  | stop => cases h; exact hl.advances hr rfl rfl rfl ⟨hat, rfl⟩ rfl rfl
  | isRunning => cases h; exact hl.advances hr rfl rfl rfl ⟨hat, rfl⟩ rfl rfl
  | setStatAddress arg =>
    simp only [advance] at h
    cases ha : statArg P arg with
    | ok addr => rw [ha] at h; cases h; exact hl.advances hr rfl rfl rfl ⟨hat, arg, rfl, ha⟩ rfl rfl
    | error f =>
      rw [ha] at h
      cases h
      exact hl.advances hr rfl rfl rfl (Or.inr ⟨statArg_code ha, hat⟩) rfl rfl
  | start configJson =>
    cases hj : EntryCall.startJob P (.start configJson) with
    | none => simp only [advance, hj] at h; cases h
    | some r =>
      cases r with
      | ok j => exact hok j hj (by simpa only [advance, hj] using h)
      | error f => exact herror f (Or.inr ⟨startJob_code hj, hat⟩) (by simpa only [advance, hj] using h)
  | startTunFd configJson tunFd =>
    cases hj : EntryCall.startJob P (.startTunFd configJson tunFd) with
    | none => simp only [advance, hj] at h; cases h
    | some r =>
      cases r with
      | ok j => exact hok j hj (by simpa only [advance, hj] using h)
      | error f => exact herror f (Or.inr ⟨startJob_code hj, hat⟩) (by simpa only [advance, hj] using h)

/-- the look at the stored instance, under the lock -/
theorem advance_locked {x : Choice α} {job : Job} {pc' : Pc α} (hl : LogOk P g) (hr : InProgress g.log id)
    (hat : AtPc P g id c (.locked job)) (h : advance P x id c g (.locked job) = some (pc', g')) :
    Advances P g' id c (.locked job) pc' := by
  obtain ⟨hn, hf, hset⟩ := hat
  have hlook : ∀ found, NoChange (g.log ++ [.looked id found]) id := fun found => hn.snoc fun hf => hf
  have hmem : ∀ e : Event α, e ∈ g.log ++ [e] := fun e => by simp
  have hsettled : ∀ found err, Settled ({ g with lastError := err }.note (.looked id found)) := fun found err =>
    hset.frame (@extends_snoc _ _ _ id _ rfl fun i hi => (Option.some.inj hi).symm) rfl rfl
  cases job with
  | start j =>
    simp only [advance] at h
    split_ifs at h with hs
    · cases h
      refine hl.advancesNote hr rfl rfl rfl rfl (by simp) hs ⟨?_, hsettled true _⟩ rfl rfl
      have hres : alreadyRunning.code ≠ 0 ∧ NoChange (g.log ++ [.looked id true]) id := ⟨by decide, hlook true⟩
      cases c with
      | start _ => exact Or.inr hres
      | startTunFd _ _ => exact Or.inr hres
      | stop => cases hf
      | isRunning => cases hf
      | setStatAddress _ => cases hf
    · cases h
      have hnone : g.stored = none := by simpa using hs
      refine hl.advancesNote hr rfl rfl rfl rfl (by simp) (by simp [EventOk, hnone])
        ⟨hlook false, hf, hnone, ?_⟩ rfl rfl
      rw [Settled, hnone] at hset
      exact hset
  | stop =>
    obtain rfl : c = .stop := hf
    simp only [advance] at h
    cases hs : g.stored with
    | none =>
      rw [hs] at h
      cases h
      refine hl.advancesNote hr rfl rfl rfl rfl (by simp) (by simp [EventOk, hs]) ⟨?_, hsettled false _⟩ rfl rfl
      exact Or.inr ⟨by decide, hmem _, hlook false⟩
    | some i =>
      rw [hs] at h
      cases h
      refine hl.advancesNote hr rfl rfl rfl rfl (by simp) hs ⟨Or.inl ⟨rfl, i, hmem _⟩, ?_⟩ rfl rfl
      -- the stored instance was the only live runtime
      rw [Settled, hs] at hset
      obtain ⟨rt, hlive, -⟩ := hset
      simp [Settled, Shared.note, Shared.drop, hlive, Dict.remove]
  | isRunning =>
    obtain rfl : c = .isRunning := hf
    cases h
    refine hl.advancesNote hr rfl rfl rfl rfl (by simp) rfl ⟨⟨g.stored.isSome, hmem _, rfl, hlook _⟩, ?_⟩ rfl rfl
    exact hsettled _ g.lastError

/-- the result of a start that fails -/
theorem result_failed {j : StartJob} (hj : c.startJob P = some (.ok j)) {code : Int} (hc : code ≠ 0)
    (hn : NoChange g.log id) : Result P g.log id code c := by
  cases c with
  | start _ => exact Or.inr ⟨hc, hn⟩
  | startTunFd _ _ => exact Or.inr ⟨hc, hn⟩
  | stop => cases hj
  | isRunning => cases hj
  | setStatAddress _ => cases hj

theorem onRuntime_live {rt : Runtime α} (hlive : g.live = [(id, rt)]) (f : Runtime α → Runtime α) :
    (g.onRuntime id f).live = [(id, f rt)] := by
  simp [Shared.onRuntime, hlive]

theorem Building.onRuntime {j : StartJob} {rt : Runtime α} (h : Building P g id c j rt) (f : Runtime α → Runtime α) :
    Building P (g.onRuntime id f) id c j (f rt) :=
  ⟨h.job, h.noChange, h.stored, onRuntime_live h.live f⟩

/-- creating the runtime and starting the forwarders -/
theorem advance_build {x : Choice α} {j : StartJob} {pc' : Pc α} (hl : LogOk P g) (hr : InProgress g.log id)
    (hat : AtPc P g id c (.build j)) (h : advance P x id c g (.build j) = some (pc', g')) :
    Advances P g' id c (.build j) pc' := by
  obtain ⟨hn, hj, hs, hlive⟩ := hat
  simp only [advance] at h
  cases hx : x.runtimeError with
  | some e =>
    rw [hx] at h
    cases h
    refine hl.advances hr rfl rfl rfl ⟨result_failed hj (by decide : sslocalErrRuntime ≠ 0) hn, ?_⟩ rfl rfl
    simp [Settled, Shared.setLastError, hs, hlive]
  | none =>
    rw [hx] at h
    cases h
    exact hl.advances hr rfl rfl rfl ⟨j, _, ⟨hj, hn, hs, by rw [hlive]⟩, rfl⟩ rfl rfl

theorem advance_forward {x : Choice α} (hload : LoadsNoStat x) {p : Prepare} {json : Json} {specs : List PluginSpec}
    {pc' : Pc α} (hl : LogOk P g) (hr : InProgress g.log id) (hat : AtPc P g id c (.forward p json specs))
    (h : advance P x id c g (.forward p json specs) = some (pc', g')) :
    Advances P g' id c (.forward p json specs) pc' := by
  obtain ⟨j, rt, hb, hfs⟩ := hat
  have hbe : ∀ f, Building P (g.setLastError f) id c j rt := fun f => ⟨hb.job, hb.noChange, hb.stored, hb.live⟩
  cases specs with
  | nil =>
    simp only [advance] at h
    cases hx : x.load json with
    | ok config =>
      rw [hx] at h
      cases h
      exact hl.advances hr rfl rfl rfl ⟨⟨j, rt, hb, by simpa [Complete] using hfs⟩, hload _ _ hx⟩ rfl rfl
    | error e =>
      rw [hx] at h
      cases h
      exact hl.advances hr rfl rfl rfl ⟨(by decide : sslocalErrBadConfig ≠ 0), j, rt, hbe _⟩ rfl rfl
  | cons spec specs =>
    simp only [advance] at h
    cases hx : x.port with
    | error e =>
      rw [hx] at h
      cases h
      exact hl.advances hr rfl rfl rfl ⟨(by decide : sslocalErrRuntime ≠ 0), j, rt, hbe _⟩ rfl rfl
    | ok localPort =>
      rw [hx] at h
      obtain ⟨json', -, hr'⟩ := Option.map_eq_some_iff.1 h
      cases hr'
      refine hl.advances hr rfl rfl rfl ⟨j, _, hb.onRuntime _, ?_⟩ rfl rfl
      rw [← hfs]
      simp [Forwarder.target, PluginSpec.target]

/-- from the loaded config to the running core -/
theorem advance_launch {x : Choice α} {pc pc' : Pc α} (hl : LogOk P g) (hr : InProgress g.log id) {t : ℕ}
    (hcall : g.log[id]? = some (.call t c)) (hat : AtPc P g id c pc)
    (hpc : (∃ p config, pc = .attach p config) ∨ (∃ p config, pc = .prepare p config) ∨
      (∃ config, pc = .spawn config) ∨ pc = .store ∨ ∃ code, pc = .abort code)
    (h : advance P x id c g pc = some (pc', g')) : Advances P g' id c pc pc' := by
  rcases hpc with ⟨p, config, rfl⟩ | ⟨p, config, rfl⟩ | ⟨config, rfl⟩ | rfl | ⟨code, rfl⟩
  · obtain ⟨⟨j, rt, hb, hf⟩, hstat⟩ := hat
    cases h
    have hb' : Building P (g.note (.attached id)) id c j rt :=
      ⟨hb.job, hb.noChange.snoc fun h => h, hb.stored, hb.live⟩
    refine hl.advancesNote hr rfl rfl rfl rfl (by simp) trivial ⟨⟨j, rt, hb', hf⟩, before_last ⟨?_, ?_⟩⟩ rfl rfl
    · exact (List.getElem?_eq_some_iff.1 hcall).1
    · rw [hl.statAddr.symm]
      unfold attachStatAddress
      cases g.statAddr with
      | none => exact hstat
      | some addr => rfl
  · obtain ⟨⟨j, rt, hb, hf⟩, hatt⟩ := hat
    simp only [advance] at h
    cases hx : p.apply x.tun config with
    | ok config' =>
      rw [hx] at h
      cases h
      refine hl.advances hr rfl rfl rfl ⟨⟨j, rt, hb, hf⟩, ?_⟩ rfl rfl
      unfold Attached at hatt ⊢
      rw [prepare_statAddr hx]
      exact hatt
    | error f =>
      rw [hx] at h
      cases h
      exact hl.advances hr rfl rfl rfl ⟨prepare_code hx, j, rt, hb.job, hb.noChange, hb.stored, hb.live⟩ rfl rfl
  · obtain ⟨⟨j, rt, hb, hf⟩, hatt⟩ := hat
    cases h
    exact hl.advances hr rfl rfl rfl ⟨j, _, config, hb.onRuntime _, hf, rfl, hatt⟩ rfl rfl
  · obtain ⟨j, rt, config, hb, hf, hcore, hatt⟩ := hat
    have hget : Dict.get id g.live = some rt := by simp [hb.live, Dict.get]
    simp only [advance, hget] at h
    cases h
    have hmem : Event.stored id rt ∈ g.log ++ [.stored id rt] := by simp
    refine hl.advancesNote hr rfl rfl rfl rfl (by simp) ⟨hb.stored, t, c, j, config, hcall, hb.job, hf, hcore, hatt⟩
      ⟨?_, rt, hb.live, hmem⟩ rfl rfl
    have hjob := hb.job
    cases c with
    | start _ => exact Or.inl ⟨rfl, rt, hmem⟩
    | startTunFd _ _ => exact Or.inl ⟨rfl, rt, hmem⟩
    | stop => cases hjob
    | isRunning => cases hjob
    | setStatAddress _ => cases hjob
  · obtain ⟨hc, j, rt, hb⟩ := hat
    cases h
    refine hl.advances hr rfl rfl rfl ⟨result_failed hb.job hc hb.noChange, ?_⟩ rfl rfl
    simp [Settled, Shared.drop, hb.stored, hb.live, Dict.remove]

/-- **One step of one call.** -/
theorem advance_at {x : Choice α} (hload : LoadsNoStat x) {pc pc' : Pc α} (hl : LogOk P g) (hr : InProgress g.log id) {t : ℕ}
    (hcall : g.log[id]? = some (.call t c)) (hat : AtPc P g id c pc)
    (h : advance P x id c g pc = some (pc', g')) : Advances P g' id c pc pc' := by
  cases pc with
  | idle => cases h
  | begun => exact advance_begun hl hr hat h
  | wantLock job => cases h
  | locked job => exact advance_locked hl hr hat h
  | build j => exact advance_build hl hr hat h
  | forward p json specs => exact advance_forward hload hl hr hat h
  | attach p config => exact advance_launch hl hr hcall hat (by simp) h
  | prepare p config => exact advance_launch hl hr hcall hat (by simp) h
  | spawn config => exact advance_launch hl hr hcall hat (by simp) h
  | store => exact advance_launch hl hr hcall hat (by simp) h
  | abort code => exact advance_launch hl hr hcall hat (by simp) h
  | unlock code => cases h
  | leave code => cases h
  | putStat addr =>
    obtain ⟨hn, arg, rfl, harg⟩ := hat
    cases h
    exact hl.advancesNote hr rfl rfl rfl rfl (by simp) trivial (Or.inl ⟨rfl, addr, harg, by simp [Shared.note]⟩) rfl rfl

theorem extends_self (h : g'.log = g.log) (hs : g'.stored = g.stored) (hl : h0 = false → g'.live = g.live) :
    Extends g g' id h0 :=
  ⟨⟨[], by simp [h], by simp⟩, fun _ => hs, hl⟩

theorem extends_note {e : Event α} (hlog : g'.log = g.log ++ [e]) (hby : e.by = some id)
    (hs : h0 = false → g'.stored = g.stored) (hl : h0 = false → g'.live = g.live) : Extends g g' id h0 := by
  refine ⟨⟨[e], hlog, fun e' hm i hi => ?_⟩, hs, hl⟩
  rw [List.mem_singleton.1 hm, hby] at hi
  exact (Option.some.inj hi).symm

/-- a step only adds events of its own call, and touches the instance only under the lock -/
theorem advance_extends {x : Choice α} {pc pc' : Pc α} (h : advance P x id c g pc = some (pc', g')) :
    Extends g g' id pc.holds := by
  cases pc with
  | idle => cases h
  | wantLock job => cases h
  | unlock code => cases h
  | leave code => cases h
  | begun =>
    simp only [advance] at h
    split at h
    · cases h; exact extends_self rfl rfl fun _ => rfl
    · cases h; exact extends_self rfl rfl fun _ => rfl
    · split at h <;> cases h <;> exact extends_self rfl rfl fun _ => rfl
    · split at h <;> cases h <;> exact extends_self rfl rfl fun _ => rfl
  | locked job =>
    cases job with
    | start j =>
      simp only [advance] at h
      split_ifs at h <;> cases h <;> exact extends_note rfl rfl (fun hh => by cases hh) fun hh => by cases hh
    | stop =>
      simp only [advance] at h
      split at h <;> cases h <;> exact extends_note rfl rfl (fun hh => by cases hh) fun hh => by cases hh
    | isRunning => cases h; exact extends_note rfl rfl (fun hh => by cases hh) fun hh => by cases hh
  | build j =>
    simp only [advance] at h
    split at h <;> cases h <;> exact extends_self rfl rfl fun hh => by cases hh
  | forward p json specs =>
    cases specs with
    | nil =>
      simp only [advance] at h
      split at h <;> cases h <;> exact extends_self rfl rfl fun hh => by cases hh
    | cons spec specs =>
      simp only [advance] at h
      split at h
      · cases h; exact extends_self rfl rfl fun hh => by cases hh
      · obtain ⟨json', -, hr⟩ := Option.map_eq_some_iff.1 h
        cases hr
        exact extends_self rfl rfl fun hh => by cases hh
  | attach p config => cases h; exact extends_note rfl rfl (fun hh => by cases hh) fun hh => by cases hh
  | prepare p config =>
    simp only [advance] at h
    split at h <;> cases h <;> exact extends_self rfl rfl fun hh => by cases hh
  | spawn config => cases h; exact extends_self rfl rfl fun hh => by cases hh
  | store =>
    simp only [advance] at h
    split at h
    · cases h; exact extends_note rfl rfl (fun hh => by cases hh) fun hh => by cases hh
    · cases h
  | abort code => cases h; exact extends_self rfl rfl fun hh => by cases hh
  | putStat addr => cases h; exact extends_note rfl rfl (fun _ => rfl) fun _ => rfl

/-! ## Steps and runs of all calls -/

/-- two calls in progress are different calls -/
theorem InCall.id_ne {t t' : ℕ} {th th' : Thread α} (h : InCall P g t th) (h' : InCall P g t' th') (hne : t' ≠ t) :
    th'.id ≠ th.id := by
  intro he
  have hc := h.call
  have hc' := h'.call
  rw [he, hc] at hc'
  simp only [Option.some.injEq, Event.call.injEq] at hc'
  exact hne hc'.1.symm

variable {w w' : World α}

/-- **Step rule.** Thread `t` goes to `th'` and the shared state to `g'`: when that keeps the call of `t` in order, adds
only events of its own and leaves the instance alone without the lock, all calls stay in order. -/
theorem Inv.update (hi : Inv P w) {t : ℕ} {th' : Thread α} {lock' : Option ℕ}
    (hbusy : (w.threads t).pc.isIdle = false) (he : Extends w.shared g' (w.threads t).id (w.threads t).pc.holds)
    (hth : th'.pc.isIdle = false → InCall P g' t th') (hlog : LogOk P g')
    (hlock : if th'.pc.holds then lock' = some t ∧ (w.lock = none ∨ w.lock = some t)
      else lock' = (if (w.threads t).pc.holds then none else w.lock))
    (hset : lock' = none → Settled g') :
    Inv P ⟨g', lock', Function.update w.threads t th'⟩ := by
  have hme := hi.calls t hbusy
  refine ⟨fun u hu => ?_, fun u => ?_, hset, hlog⟩
  · by_cases hut : u = t
    · subst hut
      simp only [Function.update_self] at hu ⊢
      exact hth hu
    · simp only [Function.update_of_ne hut] at hu ⊢
      have hother := hi.calls u hu
      refine hother.frame he (hme.id_ne hother hut) fun hh => ?_
      -- the other call holds the lock, so this one does not
      have hl := (hi.lock u).1 hh
      have hnot : (w.threads t).pc.holds = false := by
        by_contra hc
        have := (hi.lock t).1 (by simpa using hc)
        rw [hl] at this
        exact hut (Option.some.inj this)
      exact ⟨he.stored hnot, he.live hnot⟩
  · have hold := hi.lock t
    by_cases hut : u = t
    · subst hut
      simp only [Function.update_self]
      split_ifs at hlock with h1 h2
      · simp [h1, hlock.1]
      · simp [h1, hlock]
      · simp only [h1, Bool.false_eq_true, false_iff, hlock]
        exact fun hc => h2 (hold.2 hc)
    · simp only [Function.update_of_ne hut]
      rw [hi.lock u]
      split_ifs at hlock with h1 h2
      · rw [hlock.1]
        constructor
        · intro hu
          rcases hlock.2 with hn | hn
          · rw [hu] at hn; cases hn
          · rw [hu] at hn; exact absurd (Option.some.inj hn) hut
        · intro hu; exact absurd (Option.some.inj hu).symm hut
      · rw [hlock]
        constructor
        · intro hu
          rw [hold.1 h2] at hu
          exact absurd (Option.some.inj hu).symm hut
        · intro hu; cases hu
      · rw [hlock]

theorem inv_initial : Inv P (World.initial : World α) := by
  refine ⟨fun t ht => ?_, fun t => ?_, fun _ => rfl, ⟨?_, rfl, rfl, ?_, ?_, ?_, ?_⟩⟩
  · cases ht
  · simp [World.initial, Pc.holds]
  all_goals simp [World.initial]

/-- the loads of an action are without stat address -/
def Action.LoadsNoStat (a : Action α) : Prop :=
  match a.move with
  | .call _ => True
  | .step x => ShadowsocksOhos.LoadsNoStat x

/-- a thread without a call begins one -/
theorem Inv.begin (hi : Inv P w) {t : ℕ} (hidle : (w.threads t).pc = .idle) (c : EntryCall) :
    Inv P ⟨w.shared.note (.call t c), w.lock,
      Function.update w.threads t ⟨w.shared.log.length, c, .begun⟩⟩ := by
  have hids := hi.log.ids
  have hnew : ∀ e ∈ w.shared.log ++ [.call t c], e.by ≠ some w.shared.log.length := fun e hm hby => by
    rcases List.mem_append.1 hm with hm | hm
    · exact absurd (hids e hm _ hby) (lt_irrefl _)
    · rw [List.mem_singleton.1 hm] at hby; cases hby
  have hext : ∀ k, Extends w.shared (w.shared.note (.call t c)) k false := fun k =>
    ⟨⟨[.call t c], rfl, fun e hm i hby => by rw [List.mem_singleton.1 hm] at hby; cases hby⟩, fun _ => rfl, fun _ => rfl⟩
  refine ⟨fun u hu => ?_, fun u => ?_, fun hl => ?_, hi.log.snoc rfl rfl rfl trivial fun i h => by cases h⟩
  · by_cases hut : u = t
    · subst hut
      simp only [Function.update_self]
      refine ⟨by simp [Shared.note], ⟨by simp [Shared.note], fun code hm => hnew _ hm rfl⟩, fun e hm hby => ?_⟩
      exact absurd hby (hnew e hm)
    · simp only [Function.update_of_ne hut] at hu ⊢
      exact (hi.calls u hu).frame (hext ((w.threads u).id + 1)) (by omega) fun _ => ⟨rfl, rfl⟩
  · by_cases hut : u = t
    · subst hut
      have := hi.lock u
      rw [hidle] at this
      simpa [Pc.holds] using this
    · simp only [Function.update_of_ne hut]
      exact hi.lock u
  · exact (hi.settled hl).frame (hext 0) rfl rfl

theorem step_call {t : ℕ} {c : EntryCall} (h : step P w ⟨t, .call c⟩ = some w') :
    (w.threads t).pc = .idle ∧ w' = ⟨w.shared.note (.call t c), w.lock,
      Function.update w.threads t ⟨w.shared.log.length, c, .begun⟩⟩ := by
  cases hpc : (w.threads t).pc <;> simp only [step, hpc] at h <;> cases h
  exact ⟨rfl, rfl⟩

/-- what a step of a call can be: taking the lock, releasing it, returning, or anything in between -/
theorem step_cases {t : ℕ} {x : Choice α} (h : step P w ⟨t, .step x⟩ = some w') :
    (w.threads t).pc.isIdle = false ∧
    ((∃ job, (w.threads t).pc = .wantLock job ∧ w.lock = none ∧
        w' = ⟨w.shared, some t, Function.update w.threads t { w.threads t with pc := .locked job }⟩) ∨
      (∃ code, (w.threads t).pc = .unlock code ∧
        w' = ⟨w.shared, none, Function.update w.threads t { w.threads t with pc := .leave code }⟩) ∨
      (∃ code, (w.threads t).pc = .leave code ∧
        w' = ⟨w.shared.note (.ret (w.threads t).id code), w.lock,
          Function.update w.threads t { w.threads t with pc := .idle }⟩) ∨
      ∃ pc' g', advance P x (w.threads t).id (w.threads t).call w.shared (w.threads t).pc = some (pc', g') ∧
        w' = ⟨g', w.lock, Function.update w.threads t { w.threads t with pc := pc' }⟩) := by
  have hmap : ∀ {r : Option (Pc α × Shared α)},
      r.map (fun r => ({ w.setPc t r.1 with shared := r.2 } : World α)) = some w' →
      ∃ pc' g', r = some (pc', g') ∧
        w' = ⟨g', w.lock, Function.update w.threads t { w.threads t with pc := pc' }⟩ := fun {r} h => by
    obtain ⟨⟨pc', g'⟩, hr, rfl⟩ := Option.map_eq_some_iff.1 h
    exact ⟨pc', g', hr, rfl⟩
  cases hpc : (w.threads t).pc with
  | idle => simp only [step, hpc] at h; cases h
  | wantLock job =>
    simp only [step, hpc] at h
    split_ifs at h with hl
    cases h
    exact ⟨rfl, Or.inl ⟨job, rfl, hl, rfl⟩⟩
  | unlock code =>
    simp only [step, hpc] at h
    cases h
    exact ⟨rfl, Or.inr (Or.inl ⟨code, rfl, rfl⟩)⟩
  | leave code =>
    simp only [step, hpc] at h
    cases h
    exact ⟨rfl, Or.inr (Or.inr (Or.inl ⟨code, rfl, rfl⟩))⟩
  | _ =>
    simp only [step, hpc] at h
    exact ⟨rfl, Or.inr (Or.inr (Or.inr (hmap h)))⟩

/-- **One step of the library.** -/
theorem inv_step (hi : Inv P w) {a : Action α} (ha : a.LoadsNoStat) (h : step P w a = some w') : Inv P w' := by
  obtain ⟨t, move⟩ := a
  cases move with
  | call c =>
    obtain ⟨hidle, rfl⟩ := step_call h
    exact hi.begin hidle c
  | step x =>
    obtain ⟨hbusy, hcases⟩ := step_cases h
    have hme := hi.calls t hbusy
    have hself : ∀ h0, Extends w.shared w.shared (w.threads t).id h0 := fun h0 => extends_self rfl rfl fun _ => rfl
    have hat := hme.at_
    rcases hcases with ⟨job, hpc, hfree, rfl⟩ | ⟨code, hpc, rfl⟩ | ⟨code, hpc, rfl⟩ | ⟨pc', g', hadv, rfl⟩
    · -- the lock is free, so no start is at work
      rw [hpc] at hat
      refine hi.update hbusy (hself _) (fun _ => ⟨hme.call, hme.inProgress, ?_⟩) hi.log ?_ fun hn => by cases hn
      · exact ⟨hat.1, hat.2, hi.settled hfree⟩
      · simp [Pc.holds, hfree]
    · rw [hpc] at hat
      refine hi.update hbusy (hself _) (fun _ => ⟨hme.call, hme.inProgress, hat.1⟩) hi.log ?_ fun _ => hat.2
      simp [Pc.holds, hpc]
    · rw [hpc] at hat
      have hext : Extends w.shared (w.shared.note (.ret (w.threads t).id code)) (w.threads t).id
          (w.threads t).pc.holds := extends_note rfl rfl (fun _ => rfl) fun _ => rfl
      refine hi.update hbusy hext (fun hn => by cases hn) ?_ ?_ fun hl => ?_
      · refine hi.log.snoc rfl rfl rfl ⟨t, _, hme.call, hat⟩ fun i hby => ?_
        exact Option.some.inj hby ▸ hme.inProgress
      · simp [Pc.holds, hpc]
      · exact (hi.settled hl).frame hext rfl rfl
    · obtain ⟨h1, h2, h3, h4, h5⟩ := advance_at ha hi.log hme.inProgress hme.call hat hadv
      have hext := advance_extends hadv
      refine hi.update hbusy hext (fun _ => ⟨hext.getElem hme.call, h3, h1⟩) h2 ?_ fun hl => ?_
      · rw [h4]
        split_ifs with hh
        · exact ⟨(hi.lock t).1 hh, Or.inr ((hi.lock t).1 hh)⟩
        · rfl
      · have hnot : (w.threads t).pc.holds = false := by
          by_contra hc
          have := (hi.lock t).1 (by simpa using hc)
          rw [hl] at this
          cases this
        exact (hi.settled hl).frame hext (hext.stored hnot) (hext.live hnot)

theorem inv_run (hi : Inv P w) {actions : List (Action α)} (ha : ∀ a ∈ actions, a.LoadsNoStat)
    (h : runSteps P w actions = some w') : Inv P w' := by
  induction actions generalizing w with
  | nil => cases h; exact hi
  | cons a actions ih =>
    obtain ⟨w1, h1, h2⟩ := Option.bind_eq_some_iff.1 (by simpa [runSteps] using h)
    exact ih (inv_step hi (ha a List.mem_cons_self) h1) (fun b hb => ha b (List.mem_cons_of_mem _ hb)) h2

/-! ## The guarantees -/

/-- what a returned call has done, read off the log: where its own event stands, the stored instance was as it says -/
def Returned (P : Parsers α) (g : Shared α) (id : ℕ) (code : Int) : EntryCall → Prop
  | .start _ | .startTunFd _ _ =>
    code = 0 ∧ (∃ rt, Before g.log (.stored id rt) fun pre => storedOf pre = none ∧ Carries P pre id rt) ∨
      code ≠ 0 ∧ NoChange g.log id ∧ ∀ rt, (id, rt) ∉ g.live
  | .stop =>
    code = 0 ∧ (∃ i, Before g.log (.taken id i) fun pre => storedOf pre = some i) ∨
      code ≠ 0 ∧ Before g.log (.looked id false) (fun pre => storedOf pre = none) ∧ NoChange g.log id
  | .isRunning => ∃ found, Before g.log (.looked id found) (fun pre => (storedOf pre).isSome = found) ∧
      code = (if found then 1 else 0) ∧ NoChange g.log id
  | .setStatAddress arg =>
    code = 0 ∧ (∃ addr, statArg P arg = .ok addr ∧ Event.stat id addr ∈ g.log) ∨ code ≠ 0 ∧ NoChange g.log id

/-- the live runtimes are the stored one or the one that the holder of the lock is building -/
theorem Inv.live (hi : Inv P w) :
    Settled w.shared ∨ w.shared.stored = none ∧ (w.shared.live = [] ∨
      ∃ t rt, (w.threads t).pc.isIdle = false ∧ w.shared.live = [((w.threads t).id, rt)]) := by
  cases hl : w.lock with
  | none => exact Or.inl (hi.settled hl)
  | some t =>
    have hh := (hi.lock t).2 hl
    have hbusy : (w.threads t).pc.isIdle = false := by
      cases hpc : (w.threads t).pc <;> rw [hpc] at hh <;> first | rfl | cases hh
    have hat := (hi.calls t hbusy).at_
    have hbuild : ∀ {j rt}, Building P w.shared (w.threads t).id (w.threads t).call j rt →
        Settled w.shared ∨ w.shared.stored = none ∧ (w.shared.live = [] ∨
          ∃ t rt, (w.threads t).pc.isIdle = false ∧ w.shared.live = [((w.threads t).id, rt)]) := fun {j rt} hb =>
      Or.inr ⟨hb.stored, Or.inr ⟨t, rt, hbusy, hb.live⟩⟩
    cases hpc : (w.threads t).pc with
    | idle => rw [hpc] at hh; cases hh
    | begun => rw [hpc] at hh; cases hh
    | wantLock job => rw [hpc] at hh; cases hh
    | leave code => rw [hpc] at hh; cases hh
    | putStat addr => rw [hpc] at hh; cases hh
    | locked job => rw [hpc] at hat; exact Or.inl hat.2.2
    | build j => rw [hpc] at hat; exact Or.inr ⟨hat.2.2.1, Or.inl hat.2.2.2⟩
    | forward p json specs => rw [hpc] at hat; obtain ⟨j, rt, hb, -⟩ := hat; exact hbuild hb
    | attach p config => rw [hpc] at hat; obtain ⟨⟨j, rt, hb, -⟩, -⟩ := hat; exact hbuild hb
    | prepare p config => rw [hpc] at hat; obtain ⟨⟨j, rt, hb, -⟩, -⟩ := hat; exact hbuild hb
    | spawn config => rw [hpc] at hat; obtain ⟨⟨j, rt, hb, -⟩, -⟩ := hat; exact hbuild hb
    | store => rw [hpc] at hat; obtain ⟨j, rt, config, hb, -⟩ := hat; exact hbuild hb
    | abort code => rw [hpc] at hat; obtain ⟨-, j, rt, hb⟩ := hat; exact hbuild hb
    | unlock code => rw [hpc] at hat; exact Or.inl hat.2

/-- a start that returned an error has left no runtime -/
theorem Inv.not_live (hi : Inv P w) {id : ℕ} {code : Int} (hr : Event.ret id code ∈ w.shared.log)
    (hn : NoChange w.shared.log id) (rt : Runtime α) : (id, rt) ∉ w.shared.live := by
  intro hm
  rcases hi.live with hset | ⟨-, hlive | ⟨t, rt', hbusy, hlive⟩⟩
  · unfold Settled at hset
    split at hset
    · rw [hset] at hm; cases hm
    · obtain ⟨rt', hlive, hstored⟩ := hset
      rw [hlive, List.mem_singleton] at hm
      cases hm
      exact hn _ hstored rfl trivial
  · rw [hlive] at hm; cases hm
  · rw [hlive, List.mem_singleton] at hm
    cases hm
    exact (hi.calls t hbusy).inProgress.2 code hr

theorem Inv.returned (hi : Inv P w) {id : ℕ} {code : Int} (hr : Event.ret id code ∈ w.shared.log) :
    ∃ t c, w.shared.log[id]? = some (.call t c) ∧ Returned P w.shared id code c := by
  obtain ⟨t, c, hcall, hres⟩ := hi.log.rets id code hr
  refine ⟨t, c, hcall, ?_⟩
  have hnone : ∀ {pre : List (Event α)}, (storedOf pre).isSome = false → storedOf pre = none := fun h => by
    simpa using h
  have hstart : (code = 0 ∧ (∃ rt, Event.stored id rt ∈ w.shared.log) ∨ code ≠ 0 ∧ NoChange w.shared.log id) →
      (code = 0 ∧ (∃ rt, Before w.shared.log (.stored id rt) fun pre => storedOf pre = none ∧ Carries P pre id rt) ∨
      code ≠ 0 ∧ NoChange w.shared.log id ∧ ∀ rt, (id, rt) ∉ w.shared.live) := by
    rintro (⟨hc, rt, hm⟩ | ⟨hc, hn⟩)
    · exact Or.inl ⟨hc, rt, hi.log.stores id rt hm⟩
    · exact Or.inr ⟨hc, hn, hi.not_live hr hn⟩
  cases c with
  | start _ => exact hstart hres
  | startTunFd _ _ => exact hstart hres
  | stop =>
    rcases hres with ⟨hc, i, hm⟩ | ⟨hc, hm, hn⟩
    · exact Or.inl ⟨hc, i, hi.log.takes id i hm⟩
    · obtain ⟨pre, post, hlog, hp⟩ := hi.log.looks id false hm
      exact Or.inr ⟨hc, ⟨pre, post, hlog, hnone hp⟩, hn⟩
  | isRunning =>
    obtain ⟨found, hm, hc, hn⟩ := hres
    exact ⟨found, hi.log.looks id found hm, hc, hn⟩
  | setStatAddress arg => exact hres

/-- **The life of the instance.** Over every interleaving of calls from any threads, with any outcomes of what can
fail, in every state reached:
- at most one runtime is alive, and a stored instance is alive, with the forwarders and the core it was stored with;
- the stored instance and the stat address are what the log says, so nothing else has changed them;
- a start that returned 0 stored its instance where none was stored, with the forwarders of its config and a core whose
config has the address of the last successful `sslocal_set_stat_address` before; one that returned an error has changed
nothing and has left no runtime;
- a stop returned 0 if an instance was stored, which it took, and an error if none was;
- a failed `sslocal_set_stat_address` has changed nothing. -/
theorem instance_lifecycle (P : Parsers α) (actions : List (Action α)) (ha : ∀ a ∈ actions, a.LoadsNoStat)
    (w : World α) (h : runSteps P World.initial actions = some w) :
    w.shared.live.length ≤ 1 ∧
    (∀ i, w.shared.stored = some i → ∃ rt, w.shared.live = [(i, rt)] ∧ Event.stored i rt ∈ w.shared.log) ∧
    w.shared.stored = storedOf w.shared.log ∧
    w.shared.statAddr = statOf w.shared.log ∧
    ∀ id code, Event.ret id code ∈ w.shared.log →
      ∃ t c, w.shared.log[id]? = some (.call t c) ∧ Returned P w.shared id code c := by
  have hi : Inv P w := inv_run inv_initial ha h
  refine ⟨?_, fun i hs => ?_, hi.log.stored, hi.log.statAddr, fun id code hr => hi.returned hr⟩
  · rcases hi.live with hset | ⟨-, hlive | ⟨t, rt, -, hlive⟩⟩
    · unfold Settled at hset
      split at hset
      · simp [hset]
      · obtain ⟨rt, hlive, -⟩ := hset
        simp [hlive]
    · simp [hlive]
    · simp [hlive]
  · rcases hi.live with hset | ⟨hn, -⟩
    · rw [Settled, hs] at hset
      exact hset
    · rw [hs] at hn; cases hn

/-! A run of two threads: the first sets an address and starts, the second is refused while the first is at work. -/

def smallParsers : Parsers ℕ := ⟨fun _ => .ok (.obj []), fun _ => .ok 7⟩

def allWell : Choice ℕ := ⟨none, .ok 9000, fun json => .ok ⟨json, [], none⟩, ⟨.ok 5, none⟩⟩

def twoStarts : List (Action ℕ) :=
  [⟨0, .call (.setStatAddress (.text ['a']))⟩] ++ List.replicate 3 ⟨0, .step allWell⟩ ++
  [⟨0, .call (.start (.text []))⟩, ⟨1, .call (.start (.text []))⟩, ⟨1, .step allWell⟩] ++
  List.replicate 11 ⟨0, .step allWell⟩ ++ List.replicate 4 ⟨1, .step allWell⟩

theorem instance_lifecycle_two : ∃ w, runSteps smallParsers .initial twoStarts = some w ∧ w.shared.stored = some 3 ∧
    w.shared.live.length ≤ 1 := by
  have hload : ∀ a ∈ twoStarts, a.LoadsNoStat := by
    intro a ha
    have hmove : (∃ c, a.move = .call c) ∨ a.move = .step allWell := by
      simp only [twoStarts, List.mem_append, List.mem_cons, List.mem_replicate, List.not_mem_nil, or_false] at ha
      rcases ha with (((rfl | ⟨-, rfl⟩) | rfl | rfl | rfl) | ⟨-, rfl⟩) | ⟨-, rfl⟩ <;> simp
    rcases hmove with ⟨c, hc⟩ | hc <;> rw [Action.LoadsNoStat, hc]
    · trivial
    · intro json config h
      cases h
      rfl
  exact ⟨_, rfl, rfl, (instance_lifecycle smallParsers twoStarts hload _ rfl).1⟩

end ShadowsocksOhos
