/-
The VPN extension (`SsVpnExtensionAbility.ets`): `onCreate` and `onDestroy` on one event loop.

Code between two awaits runs without interruption; at an await the other method may run. So a state says for each method
which await it is at (`CreatePc`, `DestroyPc`), and an action lets one of them go on to its next await. How an awaited
call turns out in `onCreate` is chosen by the action (`Answer`); in `teardown` the awaited calls succeed.

Resources: the core (`running`), the `VpnConnection` (undestroyed from `createVpnConnection` until a `destroy` has
succeeded), the stat servers that listen. The fields `connection`, `statServer` and `statConnections` are what
`teardown` goes by.

- `Inv`: a resource that is held is recorded in its field, and a `teardown` that has not passed it yet will come by.
- `clean_iff`: in every run in which both methods have come to their ends nothing is left if and only if no
`startTunFd` succeeded after `onDestroy` was called.
- `left_behind`: a run after which everything is left.
-/
import ShadowsocksOhos.Core.Steps

namespace ShadowsocksOhos

namespace VpnExtension

/-! ## State -/

/-- the awaits of `teardown` -/
inductive TeardownPc where
  /-- closing a stat connection, with the others after it -/
  | closing (rest : List ℕ)
  /-- `this.statServer.close()`, of the server on this port -/
  | server (port : ℕ)
  /-- `this.connection.destroy()` -/
  | destroy
  /-- `TrafficStatsStore.clear` -/
  | clear
deriving DecidableEq, Repr

/-- the awaits of `onCreate` and of `startStatServer` in it -/
inductive CreatePc where
  | notCalled
  | getCurrent
  | create
  | protectProcessNet
  | deployAcl
  | clear
  /-- `server.listen` on a port, with the ports to try after it -/
  | listen (port : ℕ) (rest : List ℕ)
  /-- closing a server that could not listen -/
  | closeServer (rest : List ℕ)
  /-- `startStatServer` has ended, with a port or by throwing -/
  | statStarted (port : Option ℕ)
  | teardown (pc : TeardownPc)
  | done
deriving DecidableEq, Repr

inductive DestroyPc where
  | notCalled
  | teardown (pc : TeardownPc)
  | done
deriving DecidableEq, Repr

structure St where
  /-- `sslocal.isRunning()` -/
  running : Bool
  /-- a `VpnConnection` has been created and not been destroyed -/
  undestroyed : Bool
  /-- the ports that a stat server listens on -/
  listening : List ℕ
  /-- `this.connection !== null` -/
  connection : Bool
  /-- `this.statServer`, by its port -/
  statServer : Option ℕ
  statConnections : List ℕ
  create : CreatePc
  destroy : DestroyPc
deriving DecidableEq, Repr

def St.initial : St := ⟨false, false, [], false, none, [], .notCalled, .notCalled⟩

/-! ## teardown -/

/-- from `if (this.connection !== null)` to the next await -/
def teardownConnection (s : St) : TeardownPc := if s.connection then .destroy else .clear

/-- from `if (this.statServer !== null)` to the next await -/
def teardownServer (s : St) : TeardownPc :=
  match s.statServer with
  | some port => .server port
  | none => teardownConnection s

/-- from the loop over the stat connections to the next await -/
def teardownConnections (s : St) : List ℕ → TeardownPc
  | _ :: rest => .closing rest
  | [] => teardownServer s

/-- the start of `teardown`, up to its first await -/
def teardownStart (s : St) : St × TeardownPc :=
  let connections := s.statConnections
  let s := { s with running := false, statConnections := [] }
  (s, teardownConnections s connections)

/-- an awaited call of `teardown` has succeeded; `none` is the end -/
def teardownNext (s : St) : TeardownPc → St × Option TeardownPc
  | .closing rest => (s, some (teardownConnections s rest))
  | .server port =>
    let s := { s with listening := s.listening.filter (· ≠ port), statServer := none }
    (s, some (teardownConnection s))
  | .destroy => ({ s with undestroyed := false, connection := false }, some .clear)
  | .clear => (s, none)

/-! ## onCreate -/

/-- `STAT_PORTS` -/
def statPorts : List ℕ := [65080, 65081, 65082, 65083, 65084]

/-- how the awaited call and what follows it turn out -/
structure Answer where
  throws : Bool
  /-- `getCurrent` has found a profile with a host -/
  profile : Bool
  /-- `protectProcessNet` is available -/
  canProtect : Bool
  /-- `startTunFd` returns 0, should it be called -/
  started : Bool
deriving DecidableEq, Repr

/-- the `catch` and failure paths of `onCreate` -/
def createTeardown (s : St) : St :=
  { (teardownStart s).1 with create := .teardown (teardownStart s).2 }

/-- the loop of `startStatServer`, up to its next await -/
def tryPorts (s : St) : List ℕ → St
  | port :: rest => { s with create := .listen port rest }
  | [] => { s with create := .statStarted none }

/-- `onCreate` is called, or goes on after an await -/
def createStep (s : St) (a : Answer) : Option St :=
  match s.create with
  | .notCalled => some { s with create := .getCurrent }
  | .getCurrent =>
    if a.throws ∨ !a.profile then some { s with create := .done }
    else some { s with undestroyed := true, connection := true, create := .create }
  | .create =>
    -- a connection that was set to null meanwhile makes the next line throw
    if a.throws ∨ !s.connection then some (createTeardown s)
    else if a.canProtect then some { s with create := .protectProcessNet }
    else some { s with create := .deployAcl }
  | .protectProcessNet => if a.throws then some (createTeardown s) else some { s with create := .deployAcl }
  | .deployAcl => if a.throws then some (createTeardown s) else some { s with create := .clear }
  | .clear => if a.throws then some (createTeardown s) else some (tryPorts s statPorts)
  | .listen port rest =>
    if a.throws then some { s with create := .closeServer rest }
    else
      some { s with
        listening := port :: s.listening
        statServer := some port
        create := .statStarted (some port) }
  | .closeServer rest => some (tryPorts s rest)
  | .statStarted _ =>
    -- a core that is running already is refused
    if a.started ∧ !s.running then some { s with running := true, create := .done }
    else some (createTeardown s)
  | .teardown pc =>
    match teardownNext s pc with
    | (s, some pc) => some { s with create := .teardown pc }
    | (s, none) => some { s with create := .done }
  | .done => none

/-- `onDestroy` is called, after `onCreate` has begun, or goes on after an await -/
def destroyStep (s : St) : Option St :=
  match s.destroy with
  | .notCalled =>
    if s.create = .notCalled then none
    else some { (teardownStart s).1 with destroy := .teardown (teardownStart s).2 }
  | .teardown pc =>
    match teardownNext s pc with
    | (s, some pc) => some { s with destroy := .teardown pc }
    | (s, none) => some { s with destroy := .done }
  | .done => none

inductive Action where
  | onCreate (a : Answer)
  | onDestroy
  /-- the core connects to a stat server -/
  | connect (conn : ℕ)
  /-- a stat connection is closed or fails -/
  | forget (conn : ℕ)
deriving DecidableEq, Repr

def step (s : St) : Action → Option St
  | .onCreate a => createStep s a
  | .onDestroy => destroyStep s
  | .connect conn =>
    if s.listening = [] then none else some { s with statConnections := s.statConnections ++ [conn] }
  | .forget conn => some { s with statConnections := s.statConnections.erase conn }

/-- nothing is left -/
def Clean (s : St) : Prop := s.running = false ∧ s.undestroyed = false ∧ s.listening = []

instance (s : St) : Decidable (Clean s) := inferInstanceAs (Decidable (_ ∧ _ ∧ _))

/-- the next call of `onCreate` is `startTunFd` -/
def CreatePc.starts : CreatePc → Bool
  | .statStarted _ => true
  | _ => false

/-- the action makes `startTunFd` return 0, and `onDestroy` was called before -/
def LateStart (s : St) : Action → Prop
  | .onCreate a => s.create.starts = true ∧ a.started = true ∧ s.running = false ∧ s.destroy ≠ .notCalled
  | _ => False

instance (s : St) : (a : Action) → Decidable (LateStart s a)
  | .onCreate _ => inferInstanceAs (Decidable (_ ∧ _ ∧ _ ∧ _))
  | .onDestroy | .connect _ | .forget _ => inferInstanceAs (Decidable False)

/-! ## What is recorded, and who will release it -/

/-- `teardown` has not passed the stat server -/
def TeardownPc.beforeServer : TeardownPc → Bool
  | .closing _ | .server _ => true
  | _ => false

/-- `teardown` has not passed the connection -/
def TeardownPc.beforeDestroy : TeardownPc → Bool
  | .clear => false
  | _ => true

/-- `onCreate` has no connection yet -/
def CreatePc.early : CreatePc → Bool
  | .notCalled | .getCurrent => true
  | _ => false

/-- no stat server has been recorded yet -/
def CreatePc.beforeServer : CreatePc → Bool
  | .statStarted (some _) | .teardown _ | .done => false
  | _ => true

/-- `onCreate` may still start the core, or will pass the stat server in its own `teardown` -/
def CreatePc.releasesServer : CreatePc → Bool
  | .statStarted _ => true
  | .teardown pc => pc.beforeServer
  | _ => false

/-- likewise for the connection -/
def CreatePc.releasesConnection : CreatePc → Bool
  | .notCalled | .getCurrent | .done => false
  | .teardown pc => pc.beforeDestroy
  | _ => true

def DestroyPc.releasesServer : DestroyPc → Bool
  | .notCalled => true
  | .teardown pc => pc.beforeServer
  | .done => false

def DestroyPc.releasesConnection : DestroyPc → Bool
  | .notCalled => true
  | .teardown pc => pc.beforeDestroy
  | .done => false

structure Inv (s : St) : Prop where
  running : s.running = true → s.create = .done ∧ s.destroy = .notCalled
  recorded : s.undestroyed = s.connection
  server : s.listening = s.statServer.toList
  released : s.connection = true → s.create.releasesConnection = true ∨ s.destroy.releasesConnection = true
  closed : s.statServer.isSome → s.create.releasesServer = true ∨ s.destroy.releasesServer = true
  early : s.create.early = true → s.connection = false
  noServer : s.create.beforeServer = true → s.statServer = none ∧ ∀ port, s.destroy ≠ .teardown (.server port)
  closing : ∀ port, s.create = .teardown (.server port) ∨ s.destroy = .teardown (.server port) →
    s.statServer = some port ∨ s.statServer = none

theorem inv_initial : Inv .initial := by
  refine ⟨?_, rfl, rfl, ?_, ?_, ?_, ?_, ?_⟩ <;> simp [St.initial]

/-! ## teardown comes by -/

/-- what `teardown` waits for next, given what is recorded -/
structure Waits (s : St) (pc : TeardownPc) : Prop where
  connection : s.connection = true → pc.beforeDestroy = true
  server : s.statServer.isSome → pc.beforeServer = true
  closing : ∀ port, pc = .server port → s.statServer = some port

theorem waits_connection {s : St} (h : s.statServer = none) : Waits s (teardownConnection s) := by
  unfold teardownConnection
  refine ⟨fun hc => ?_, fun hs => ?_, fun port hp => ?_⟩
  · rw [hc]
    rfl
  · rw [h] at hs
    cases hs
  · split_ifs at hp

theorem waits_server (s : St) : Waits s (teardownServer s) := by
  unfold teardownServer
  cases hs : s.statServer with
  | some port =>
    refine ⟨fun _ => rfl, fun _ => rfl, fun p hp => ?_⟩
    rw [hs, TeardownPc.server.inj hp]
  | none => exact waits_connection hs

theorem waits_connections (s : St) (conns : List ℕ) : Waits s (teardownConnections s conns) := by
  cases conns with
  | nil => exact waits_server s
  | cons c rest => exact ⟨fun _ => rfl, fun _ => rfl, nofun⟩

/-! ## onCreate keeps the invariant -/

theorem CreatePc.not_early {pc : CreatePc} (h : pc.releasesConnection = true) : pc.early = false := by
  cases pc <;> first | rfl | cases h

/-- as long as `onCreate` is at work the core does not run -/
theorem Inv.not_running {s : St} (hi : Inv s) (h : s.create ≠ .done) : s.running = false := by
  by_contra hr
  exact h (hi.running (by simpa using hr)).1

theorem CreatePc.not_done {pc : CreatePc} (h : pc.beforeServer = true) : pc ≠ .done := by
  rintro rfl
  cases h

/-- `onCreate` goes on while no stat server has been recorded -/
theorem move_inv {s : St} (hi : Inv s) (hb : s.create.beforeServer = true) {pc : CreatePc}
    (hreleased : s.connection = true → pc.releasesConnection = true) (hearly : pc.early = true → s.connection = false) :
    Inv { s with create := pc } := by
  have hn := hi.noServer hb
  refine { hi with running := ?_, released := ?_, closed := ?_, early := hearly, noServer := ?_, closing := ?_ }
  · intro hr
    rw [hi.not_running (CreatePc.not_done hb)] at hr
    cases hr
  · intro hc
    exact Or.inl (hreleased hc)
  · intro hs
    rw [hn.1] at hs
    cases hs
  · intro _
    exact hn
  · intro port _
    exact Or.inr hn.1

/-- and has its connection -/
theorem goOn_inv {s : St} (hi : Inv s) {pc : CreatePc} (hb : s.create.beforeServer = true)
    (hc : pc.releasesConnection = true) : Inv { s with create := pc } := by
  apply move_inv hi hb
  · intro _
    exact hc
  · intro he
    rw [CreatePc.not_early hc] at he
    cases he

theorem tryPorts_inv {s : St} (hi : Inv s) (hb : s.create.beforeServer = true) (ports : List ℕ) :
    Inv (tryPorts s ports) := by
  cases ports with
  | nil => exact goOn_inv hi hb rfl
  | cons port rest => exact goOn_inv hi hb rfl

/-- `onCreate` begins, or aborts for want of a profile -/
theorem noConnection_inv {s : St} (hi : Inv s) (h : s.create.early = true) (hb : s.create.beforeServer = true)
    (pc : CreatePc) : Inv { s with create := pc } := by
  have hc : s.connection = false := hi.early h
  apply move_inv hi hb
  · intro hc'
    rw [hc] at hc'
    cases hc'
  · intro _
    exact hc

/-- `onCreate` gives up and begins its `teardown` -/
theorem createTeardown_inv {s : St} (hi : Inv s) : Inv (createTeardown s) := by
  have hw := waits_connections { s with running := false, statConnections := [] } s.statConnections
  refine { hi with running := nofun, released := ?_, closed := ?_, early := nofun, noServer := nofun, closing := ?_ }
  · intro hc
    exact Or.inl (hw.connection hc)
  · intro hs
    exact Or.inl (hw.server hs)
  · rintro port (h | h)
    · exact Or.inl (hw.closing port (CreatePc.teardown.inj h))
    · exact hi.closing port (Or.inr h)

/-- `onCreate` creates its `VpnConnection` -/
theorem created_inv {s : St} (hi : Inv s) (h : s.create = .getCurrent) :
    Inv { s with undestroyed := true, connection := true, create := .create } := by
  have hb : s.create.beforeServer = true := by rw [h]; rfl
  have hm : Inv { s with create := .create } := goOn_inv hi hb rfl
  refine { hm with recorded := rfl, released := ?_, early := nofun }
  intro _
  exact Or.inl rfl

/-- the stat server listens -/
theorem listening_inv {s : St} (hi : Inv s) {port : ℕ} {rest : List ℕ} (h : s.create = .listen port rest) :
    Inv ⟨s.running, s.undestroyed, port :: s.listening, s.connection, some port, s.statConnections,
      .statStarted (some port), s.destroy⟩ := by
  have hb : s.create.beforeServer = true := by rw [h]; rfl
  have hn := hi.noServer hb
  have hm : Inv { s with create := .statStarted (some port) } := goOn_inv hi hb rfl
  refine { hm with server := ?_, closed := ?_, noServer := nofun, closing := ?_ }
  · simp [hi.server, hn.1]
  · intro _
    exact Or.inl rfl
  · -- no teardown waits for a server: the field was null until now
    rintro p (hp | hp)
    · cases hp
    · exact absurd hp (hn.2 p)

/-- the core is started before `onDestroy` is called -/
theorem started_inv {s : St} (hi : Inv s) (h : s.destroy = .notCalled) :
    Inv { s with running := true, create := .done } := by
  have hd : s.destroy.releasesConnection = true ∧ s.destroy.releasesServer = true := by
    rw [h]
    exact ⟨rfl, rfl⟩
  refine { hi with running := ?_, released := ?_, closed := ?_, early := nofun, noServer := nofun, closing := ?_ }
  · intro _
    exact ⟨rfl, h⟩
  · intro _
    exact Or.inr hd.1
  · intro _
    exact Or.inr hd.2
  · rintro p (hp | hp)
    · cases hp
    · rw [h] at hp
      cases hp

/-! ## teardown keeps the invariant -/

/-- closing the server on a port that is recorded or nothing -/
theorem closed_server {s : St} (hi : Inv s) {port : ℕ} (h : s.statServer = some port ∨ s.statServer = none) :
    s.listening.filter (· ≠ port) = [] := by
  rw [hi.server]
  rcases h with h | h <;> simp [h]

/-- `onDestroy` is called -/
theorem destroyCall_inv {s : St} (hi : Inv s) :
    Inv { (teardownStart s).1 with destroy := .teardown (teardownStart s).2 } := by
  have hw := waits_connections { s with running := false, statConnections := [] } s.statConnections
  refine { hi with running := nofun, released := ?_, closed := ?_, noServer := ?_, closing := ?_ }
  · intro hc
    exact Or.inr (hw.connection hc)
  · intro hs
    exact Or.inr (hw.server hs)
  · intro hb
    refine ⟨(hi.noServer hb).1, ?_⟩
    intro port he
    have hs : s.statServer = some port := hw.closing port (DestroyPc.teardown.inj he)
    rw [(hi.noServer hb).1] at hs
    cases hs
  · rintro port (h | h)
    · exact hi.closing port (Or.inl h)
    · exact Or.inl (hw.closing port (DestroyPc.teardown.inj h))

/-- what an awaited call of `teardown` changes, and what comes after it -/
structure Next (s : St) (pc : TeardownPc) (s' : St) (next : Option TeardownPc) : Prop where
  running : s'.running = s.running
  create : s'.create = s.create
  destroy : s'.destroy = s.destroy
  recorded : s'.undestroyed = s'.connection
  listening : s'.listening = s'.statServer.toList
  statServer : s'.statServer = s.statServer ∨ s'.statServer = none
  held : s'.connection = true → s.connection = true
  connection : s'.connection = true → pc.beforeDestroy = true → ∃ pc', next = some pc' ∧ pc'.beforeDestroy = true
  server : s'.statServer.isSome → pc.beforeServer = true → ∃ pc', next = some pc' ∧ pc'.beforeServer = true
  closing : ∀ port, next = some (.server port) → s'.statServer = some port

theorem Next.of_waits {s s' : St} {pc pc' : TeardownPc} (hw : Waits s' pc') (hr : s'.running = s.running)
    (hc : s'.create = s.create) (hd : s'.destroy = s.destroy) (hrec : s'.undestroyed = s'.connection)
    (hl : s'.listening = s'.statServer.toList) (hs : s'.statServer = s.statServer ∨ s'.statServer = none)
    (hh : s'.connection = true → s.connection = true) : Next s pc s' (some pc') :=
  ⟨hr, hc, hd, hrec, hl, hs, hh, fun h _ => ⟨pc', rfl, hw.connection h⟩, fun h _ => ⟨pc', rfl, hw.server h⟩,
    fun port h => hw.closing port (Option.some.inj h)⟩

theorem Next.server_held {s s' : St} {pc : TeardownPc} {next : Option TeardownPc} (hn : Next s pc s' next)
    (h : s'.statServer.isSome) : s.statServer.isSome := by
  rcases hn.statServer with he | he
  · rwa [he] at h
  · simp [he] at h

theorem Next.closing_kept {s s' : St} {pc : TeardownPc} {next : Option TeardownPc} (hn : Next s pc s' next) {port : ℕ}
    (h : s.statServer = some port ∨ s.statServer = none) : s'.statServer = some port ∨ s'.statServer = none := by
  rcases hn.statServer with he | he
  · rwa [he]
  · exact Or.inr he

theorem teardownNext_spec {s : St} (hi : Inv s) {pc : TeardownPc}
    (hp : ∀ port, pc = .server port → s.statServer = some port ∨ s.statServer = none) :
    Next s pc (teardownNext s pc).1 (teardownNext s pc).2 := by
  cases pc with
  | closing rest =>
    apply Next.of_waits (waits_connections s rest) rfl rfl rfl hi.recorded hi.server (Or.inl rfl) id
  | server port =>
    have hl : s.listening.filter (· ≠ port) = [] := closed_server hi (hp port rfl)
    refine @Next.of_waits s { s with listening := s.listening.filter (· ≠ port), statServer := none } _ _ ?_
      rfl rfl rfl hi.recorded hl (Or.inr rfl) id
    exact waits_connection rfl
  | destroy => exact ⟨rfl, rfl, rfl, rfl, hi.server, Or.inl rfl, nofun, nofun, fun _ => nofun, nofun⟩
  | clear => exact ⟨rfl, rfl, rfl, hi.recorded, hi.server, Or.inl rfl, id, fun _ => nofun, fun _ => nofun, nofun⟩

/-- the `teardown` of `onCreate` goes on -/
theorem createNext_inv {s s' : St} (hi : Inv s) {pc : TeardownPc} (hpc : s.create = .teardown pc)
    {next : Option TeardownPc} (hn : Next s pc s' next) :
    Inv { s' with create := next.elim .done .teardown } := by
  have hrun : s'.running = false := hn.running.trans (hi.not_running (by rw [hpc]; nofun))
  constructor
  · intro h
    rw [hrun] at h
    cases h
  · exact hn.recorded
  · exact hn.listening
  · intro h
    have hrel := hi.released (hn.held h)
    rw [hpc, ← hn.destroy] at hrel
    refine hrel.imp_left ?_
    intro hc
    obtain ⟨pc', rfl, hpc'⟩ := hn.connection h hc
    exact hpc'
  · intro h
    have hrel := hi.closed (hn.server_held h)
    rw [hpc, ← hn.destroy] at hrel
    refine hrel.imp_left ?_
    intro hc
    obtain ⟨pc', rfl, hpc'⟩ := hn.server h hc
    exact hpc'
  · intro h
    cases next <;> cases h
  · intro h
    cases next <;> cases h
  · rintro port (hp | hp)
    · cases next with
      | none => cases hp
      | some pc' => exact Or.inl (hn.closing port (by rw [CreatePc.teardown.inj hp]))
    · apply hn.closing_kept (hi.closing port (Or.inr _))
      rw [← hn.destroy]
      exact hp

/-- the `teardown` of `onDestroy` goes on -/
theorem destroyNext_inv {s s' : St} (hi : Inv s) {pc : TeardownPc} (hpc : s.destroy = .teardown pc)
    {next : Option TeardownPc} (hn : Next s pc s' next) :
    Inv { s' with destroy := next.elim .done .teardown } := by
  have hrun : s'.running = false := by
    by_contra hr
    have hd := (hi.running (by simpa [hn.running] using hr)).2
    rw [hpc] at hd
    cases hd
  constructor
  · intro h
    rw [hrun] at h
    cases h
  · exact hn.recorded
  · exact hn.listening
  · intro h
    have hrel := hi.released (hn.held h)
    rw [hpc, ← hn.create] at hrel
    refine hrel.imp_right ?_
    intro hd
    obtain ⟨pc', rfl, hpc'⟩ := hn.connection h hd
    exact hpc'
  · intro h
    have hrel := hi.closed (hn.server_held h)
    rw [hpc, ← hn.create] at hrel
    refine hrel.imp_right ?_
    intro hd
    obtain ⟨pc', rfl, hpc'⟩ := hn.server h hd
    exact hpc'
  · intro h
    have he : s.create.early = true := by rw [← hn.create]; exact h
    by_contra hc
    have hheld := hn.held (by simpa using hc)
    rw [hi.early he] at hheld
    cases hheld
  · intro h
    have hnone : s.statServer = none := (hi.noServer (by rw [← hn.create]; exact h)).1
    refine ⟨?_, ?_⟩
    · rcases hn.statServer with he | he
      · exact he.trans hnone
      · exact he
    · -- no server to close: the field is null, and stays so
      intro port hp
      cases next with
      | none => cases hp
      | some pc' =>
        have hs : s'.statServer = some port := hn.closing port (by rw [DestroyPc.teardown.inj hp])
        have hs' := hn.server_held (by rw [hs]; rfl)
        rw [hnone] at hs'
        cases hs'
  · rintro port (hp | hp)
    · apply hn.closing_kept (hi.closing port (Or.inl _))
      rw [← hn.create]
      exact hp
    · cases next with
      | none => cases hp
      | some pc' => exact Or.inl (hn.closing port (by rw [DestroyPc.teardown.inj hp]))

/-! ## Steps -/

/-- the rest of `onCreate` after it has created its connection, until the stat server is dealt with -/
theorem awaited_inv {s s' : St} (hi : Inv s) {p : Prop} [Decidable p] {pc : CreatePc} (hb : s.create.beforeServer = true)
    (hc : pc.releasesConnection = true)
    (h : (if p then some (createTeardown s) else some { s with create := pc }) = some s') : Inv s' := by
  split_ifs at h
  · cases h
    exact createTeardown_inv hi
  · cases h
    exact goOn_inv hi hb hc

theorem createStep_inv {s s' : St} {a : Answer} (hi : Inv s) (hl : ¬ LateStart s (.onCreate a))
    (h : createStep s a = some s') : Inv s' := by
  cases hpc : s.create with
  | notCalled =>
    simp only [createStep, hpc, Option.some.injEq] at h
    subst h
    exact noConnection_inv hi (by rw [hpc]; rfl) (by rw [hpc]; rfl) _
  | getCurrent =>
    simp only [createStep, hpc] at h
    split_ifs at h
    · cases h
      exact noConnection_inv hi (by rw [hpc]; rfl) (by rw [hpc]; rfl) _
    · cases h
      exact created_inv hi hpc
  | create =>
    have hb : s.create.beforeServer = true := by rw [hpc]; rfl
    simp only [createStep, hpc] at h
    split_ifs at h
    · cases h
      exact createTeardown_inv hi
    · cases h
      exact goOn_inv hi hb rfl
    · cases h
      exact goOn_inv hi hb rfl
  | protectProcessNet =>
    simp only [createStep, hpc] at h
    exact awaited_inv hi (by rw [hpc]; rfl) rfl h
  | deployAcl =>
    simp only [createStep, hpc] at h
    exact awaited_inv hi (by rw [hpc]; rfl) rfl h
  | clear =>
    simp only [createStep, hpc] at h
    exact awaited_inv hi (by rw [hpc]; rfl) rfl h
  | listen port rest =>
    simp only [createStep, hpc] at h
    split_ifs at h
    · cases h
      exact goOn_inv hi (by rw [hpc]; rfl) rfl
    · cases h
      exact listening_inv hi hpc
  | closeServer rest =>
    simp only [createStep, hpc, Option.some.injEq] at h
    subst h
    exact tryPorts_inv hi (by rw [hpc]; rfl) rest
  | statStarted port =>
    simp only [createStep, hpc] at h
    split_ifs at h with hs
    · cases h
      refine started_inv hi ?_
      by_contra hd
      exact hl ⟨by rw [hpc]; rfl, hs.1, by simpa using hs.2, hd⟩
    · cases h
      exact createTeardown_inv hi
  | teardown pc =>
    have hp : ∀ port, pc = .server port → s.statServer = some port ∨ s.statServer = none :=
      fun port hp => hi.closing port (Or.inl (by rw [hpc, hp]))
    have hs := createNext_inv hi hpc (teardownNext_spec hi hp)
    simp only [createStep, hpc] at h
    split at h
    · rename_i hnext
      rw [hnext] at hs
      cases h
      exact hs
    · rename_i hnext
      rw [hnext] at hs
      cases h
      exact hs
  | done =>
    simp only [createStep, hpc] at h
    cases h

theorem destroyStep_inv {s s' : St} (hi : Inv s) (h : destroyStep s = some s') : Inv s' := by
  cases hpc : s.destroy with
  | notCalled =>
    simp only [destroyStep, hpc] at h
    split_ifs at h
    cases h
    exact destroyCall_inv hi
  | teardown pc =>
    have hp : ∀ port, pc = .server port → s.statServer = some port ∨ s.statServer = none :=
      fun port hp => hi.closing port (Or.inr (by rw [hpc, hp]))
    have hs := destroyNext_inv hi hpc (teardownNext_spec hi hp)
    simp only [destroyStep, hpc] at h
    split at h
    · rename_i hnext
      rw [hnext] at hs
      cases h
      exact hs
    · rename_i hnext
      rw [hnext] at hs
      cases h
      exact hs
  | done =>
    simp only [destroyStep, hpc] at h
    cases h

/-- the list of stat connections does not matter -/
theorem statConnections_inv {s : St} (hi : Inv s) (conns : List ℕ) : Inv { s with statConnections := conns } :=
  ⟨hi.running, hi.recorded, hi.server, hi.released, hi.closed, hi.early, hi.noServer, hi.closing⟩

/-- every step that is not a late start keeps the invariant -/
theorem inv_step (s : St) (a : Action) (s' : St) (hi : Inv s) (hl : ¬ LateStart s a) (h : step s a = some s') :
    Inv s' := by
  cases a with
  | onCreate a => exact createStep_inv hi hl h
  | onDestroy => exact destroyStep_inv hi h
  | connect conn =>
    simp only [step] at h
    split_ifs at h
    cases h
    exact statConnections_inv hi _
  | forget conn =>
    cases h
    exact statConnections_inv hi _

/-- both methods have come to their ends -/
theorem Inv.clean {s : St} (hi : Inv s) (hc : s.create = .done) (hd : s.destroy = .done) : Clean s := by
  have hconn : s.connection = false := by
    by_contra h
    rcases hi.released (by simpa using h) with hr | hr
    · rw [hc] at hr
      cases hr
    · rw [hd] at hr
      cases hr
  have hserver : s.statServer = none := by
    by_contra h
    rcases hi.closed (Option.isSome_iff_ne_none.mpr h) with hr | hr
    · rw [hc] at hr
      cases hr
    · rw [hd] at hr
      cases hr
  refine ⟨?_, hi.recorded.trans hconn, ?_⟩
  · by_contra h
    have := (hi.running (by simpa using h)).2
    rw [hd] at this
    cases this
  · rw [hi.server, hserver]
    rfl

/-! ## A late start -/

/-- the core runs, and nobody will stop it -/
def Left (s : St) : Prop := s.running = true ∧ s.create = .done ∧ s.destroy ≠ .notCalled

theorem teardownNext_same (s : St) (pc : TeardownPc) :
    (teardownNext s pc).1.running = s.running ∧ (teardownNext s pc).1.create = s.create := by
  cases pc <;> exact ⟨rfl, rfl⟩

theorem late_left {s s' : St} {a : Action} (hl : LateStart s a) (h : step s a = some s') : Left s' := by
  cases a with
  | onCreate a =>
    obtain ⟨hp, hs, hr, hd⟩ := hl
    cases hpc : s.create with
    | statStarted port =>
      simp only [step, createStep, hpc, hs, hr] at h
      cases h
      exact ⟨rfl, rfl, hd⟩
    | _ =>
      rw [hpc] at hp
      cases hp
  | onDestroy => exact hl.elim
  | connect conn => exact hl.elim
  | forget conn => exact hl.elim

theorem left_step (s : St) (a : Action) (s' : St) (hs : Left s) (h : step s a = some s') : Left s' := by
  obtain ⟨hr, hc, hd⟩ := hs
  cases a with
  | onCreate a =>
    simp only [step, createStep, hc] at h
    cases h
  | onDestroy =>
    simp only [step, destroyStep] at h
    split at h
    · contradiction
    · rename_i pc _
      obtain ⟨hr', hc'⟩ := teardownNext_same s pc
      split at h
      · rename_i hnext
        rw [hnext] at hr' hc'
        cases h
        exact ⟨hr'.trans hr, hc'.trans hc, nofun⟩
      · rename_i hnext
        rw [hnext] at hr' hc'
        cases h
        exact ⟨hr'.trans hr, hc'.trans hc, nofun⟩
    · cases h
  | connect conn =>
    simp only [step] at h
    split_ifs at h
    cases h
    exact ⟨hr, hc, hd⟩
  | forget conn =>
    cases h
    exact ⟨hr, hc, hd⟩

/-! ## Main result -/

/-- **Shutdown leaves nothing behind, but for a core that is started after `onDestroy` was called.** -/
theorem clean_iff (actions : List Action) (s : St) (h : Steps.run step .initial actions = some s)
    (hc : s.create = .done) (hd : s.destroy = .done) :
    Clean s ↔ Steps.Along step (fun s a => ¬ LateStart s a) .initial actions := by
  constructor
  · intro hclean
    by_contra hn
    obtain ⟨before, a, after, s1, s2, -, -, -, hlate, h2, hrest⟩ := Steps.not_along hn h
    have hleft : Left s := Steps.run_inv' left_step (late_left (not_not.mp hlate) h2) hrest
    have hrun : s.running = false := hclean.1
    rw [hleft.1] at hrun
    cases hrun
  · intro hal
    have hi : Inv s := Steps.run_inv inv_step inv_initial hal h
    exact hi.clean hc hd

/-- an awaited call that succeeds, with a profile, no `protectProcessNet`, and a core that can start -/
def ok : Answer := ⟨false, true, false, true⟩

/-- `onCreate` runs to its end, and then `onDestroy` -/
def quietRun : List Action :=
  List.replicate 7 (.onCreate ok) ++ [.connect 1] ++ List.replicate 5 .onDestroy

theorem clean_iff_quiet : ∃ s, Steps.run step .initial quietRun = some s ∧ Clean s :=
  ⟨_, rfl, (clean_iff quietRun _ rfl rfl rfl).2 (by decide)⟩

/-- `onDestroy` is called, and runs to its end, while `onCreate` waits for the current profile -/
def lateRun : List Action :=
  [.onCreate ok, .onDestroy, .onDestroy] ++ List.replicate 6 (.onCreate ok)

/-- **A run after which everything is left.** -/
theorem left_behind : ¬ ∀ (actions : List Action) (s : St), Steps.run step .initial actions = some s →
    s.create = .done → s.destroy = .done → Clean s := by
  intro h
  have := h lateRun _ rfl rfl rfl
  revert this
  decide

end VpnExtension

end ShadowsocksOhos
