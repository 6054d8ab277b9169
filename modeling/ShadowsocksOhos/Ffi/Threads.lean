/-
The entry points of the C ABI (`lib.rs`) called from any number of threads.

`INSTANCE` is a mutex that a start, a stop and an `is_running` hold from their look at the stored instance to their
return; `STAT_ADDR` is locked for one read or one write at a time. Between two such accesses other threads may run, so
a call is a sequence of steps and a run is any interleaving of the steps of all calls. A thread's `Pc` says which step
comes next. What can fail is chosen afresh at every step (`Choice`).

Runtimes are named by the call that created them, and a call by the place of its `call` event in the log. `live` holds
the runtimes that have not been dropped, with the tasks spawned on them. The log is ghost state: it records what the
calls have done, in order, and no step reads it.
-/
import ShadowsocksOhos.Ffi.Start

namespace ShadowsocksOhos

variable {α : Type}

/-! ## Calls -/

/-- a `*const c_char` argument -/
inductive CArg where
  | null
  | notUtf8 (e : Text)
  | text (s : Text)
deriving DecidableEq, Repr

def cstrArg (what : Text) : CArg → Except Failure Text
  | .null => .error ⟨sslocalErrInvalidArg, what ++ " is null".toList⟩
  | .notUtf8 e => .error ⟨sslocalErrInvalidArg, what ++ " is not valid UTF-8: ".toList ++ e⟩
  | .text s => .ok s

inductive EntryCall where
  | start (configJson : CArg)
  | startTunFd (configJson : CArg) (tunFd : Int)
  | stop
  | isRunning
  | setStatAddress (addr : CArg)
deriving DecidableEq, Repr

/-- the parsers for JSON texts and for socket addresses -/
structure Parsers (α : Type) where
  json : Text → Except Text Json
  addr : Text → Except Text α

def parseConfigJson (P : Parsers α) (configJson : CArg) : Except Failure Json := do
  let text ← cstrArg "config_json".toList configJson
  match P.json text with
  | .ok json => .ok json
  | .error e => .error (invalidConfig e)

/-- what a start does to the config before it hands it to the core -/
inductive Prepare where
  | plain
  | tun (tunFd : Int)
deriving DecidableEq, Repr

def Prepare.apply (answers : TunAnswers) : Prepare → Config α → Except Failure (Config α)
  | .plain, config => .ok config
  | .tun tunFd, config => attachTun answers tunFd config

/-- a start whose arguments are in order -/
structure StartJob where
  specs : List PluginSpec
  json : Json
  prepare : Prepare

def startJob (P : Parsers α) (configJson : CArg) (prepare : Prepare) : Except Failure StartJob := do
  let json ← parseConfigJson P configJson
  let specs ← extractPluginSpecs json
  .ok ⟨specs, json, prepare⟩

/-- what a start does before it takes the lock; `none` for the other calls -/
def EntryCall.startJob (P : Parsers α) : EntryCall → Option (Except Failure StartJob)
  | .start configJson => some (ShadowsocksOhos.startJob P configJson .plain)
  | .startTunFd configJson tunFd =>
    some (
      if tunFd < 0 then
        .error ⟨sslocalErrInvalidArg, "invalid tun file descriptor: ".toList ++ (toString tunFd).toList⟩
      else ShadowsocksOhos.startJob P configJson (.tun tunFd))
  | _ => none

/-- the address that `sslocal_set_stat_address` is to store -/
def statArg (P : Parsers α) : CArg → Except Failure (Option α)
  | .null => .ok none
  | arg => do
    let text ← cstrArg "stat address".toList arg
    if text.isEmpty then .ok none
    else
      match P.addr text with
      | .ok addr => .ok (some addr)
      | .error e =>
        .error ⟨sslocalErrInvalidArg, "invalid stat address \"".toList ++ text ++ "\": ".toList ++ e⟩

/-! ## State -/

/-- what a call does while it holds the lock of `INSTANCE` -/
inductive Job where
  | start (j : StartJob)
  | stop
  | isRunning

/-- the next step of a call -/
inductive Pc (α : Type) where
  | idle
  | begun
  /-- waiting for the lock of `INSTANCE` -/
  | wantLock (job : Job)
  | locked (job : Job)
  /-- no instance is stored: create the runtime -/
  | build (j : StartJob)
  /-- start the forwarders of these specs, then load the config -/
  | forward (prepare : Prepare) (json : Json) (specs : List PluginSpec)
  | attach (prepare : Prepare) (config : Config α)
  | prepare (prepare : Prepare) (config : Config α)
  | spawn (config : Config α)
  | store
  /-- leave with an error: the runtime is dropped first -/
  | abort (code : Int)
  /-- then the lock is released -/
  | unlock (code : Int)
  /-- then the call returns -/
  | leave (code : Int)
  /-- write `STAT_ADDR` -/
  | putStat (addr : Option α)

/-- ghost events; `id` is the call that they belong to -/
inductive Event (α : Type) where
  | call (thread : ℕ) (c : EntryCall)
  /-- under the lock, an instance was found stored or not -/
  | looked (id : ℕ) (found : Bool)
  /-- `STAT_ADDR` was read for the config -/
  | attached (id : ℕ)
  | stored (id : ℕ) (runtime : Runtime α)
  | taken (id : ℕ) (runtimeId : ℕ)
  | stat (id : ℕ) (addr : Option α)
  | ret (id : ℕ) (code : Int)

structure Shared (α : Type) where
  /-- `INSTANCE` -/
  stored : Option ℕ
  /-- `STAT_ADDR` -/
  statAddr : Option α
  /-- `LAST_ERROR` -/
  lastError : Option Text
  live : List (ℕ × Runtime α)
  log : List (Event α)

structure Thread (α : Type) where
  id : ℕ
  call : EntryCall
  pc : Pc α

structure World (α : Type) where
  shared : Shared α
  /-- the thread that holds the lock of `INSTANCE` -/
  lock : Option ℕ
  threads : ℕ → Thread α

namespace Shared

def note (g : Shared α) (e : Event α) : Shared α := { g with log := g.log ++ [e] }

def setLastError (g : Shared α) (f : Failure) : Shared α := { g with lastError := some (cString f.message) }

/-- spawn something on a runtime -/
def onRuntime (g : Shared α) (id : ℕ) (f : Runtime α → Runtime α) : Shared α :=
  { g with live := g.live.map fun e => if e.1 = id then (e.1, f e.2) else e }

def drop (g : Shared α) (id : ℕ) : Shared α := { g with live := Dict.remove id g.live }

end Shared

/-! ## Steps -/

/-- how the fallible parts turn out, should the next step ask for them -/
structure Choice (α : Type) where
  runtimeError : Option Text
  port : Except Text UInt16
  load : Json → Except Text (Config α)
  tun : TunAnswers

def notRunning : Failure := ⟨sslocalErrNotRunning, "sslocal is not running".toList⟩

/-- a step of a call that neither takes nor releases the lock; `none` where there is no such step -/
def advance (P : Parsers α) (x : Choice α) (id : ℕ) (c : EntryCall) (g : Shared α) : Pc α → Option (Pc α × Shared α)
  | .begun =>
    match c with
    | .stop => some (.wantLock .stop, g)
    | .isRunning => some (.wantLock .isRunning, g)
    | .setStatAddress arg =>
      match statArg P arg with
      | .ok addr => some (.putStat addr, g)
      | .error f => some (.leave f.code, g.setLastError f)
    | c =>
      match c.startJob P with
      | some (.ok j) => some (.wantLock (.start j), g)
      | some (.error f) => some (.leave f.code, g.setLastError f)
      | none => none
  | .locked (.start j) =>
    if g.stored.isSome then some (.unlock alreadyRunning.code, (g.setLastError alreadyRunning).note (.looked id true))
    else some (.build j, g.note (.looked id false))
  | .locked .stop =>
    match g.stored with
    -- the runtime is shut down in the background: its tasks are dropped
    | some runtimeId => some (.unlock sslocalOk, ({ g with stored := none }.drop runtimeId).note (.taken id runtimeId))
    | none => some (.unlock notRunning.code, (g.setLastError notRunning).note (.looked id false))
  | .locked .isRunning =>
    some (.unlock (if g.stored.isSome then 1 else 0), g.note (.looked id g.stored.isSome))
  | .build j =>
    match x.runtimeError with
    | some e => some (.unlock (noRuntime e).code, g.setLastError (noRuntime e))
    | none => some (.forward j.prepare j.json j.specs, { g with live := (id, ⟨[], none⟩) :: g.live })
  | .forward prepare json [] =>
    match x.load json with
    | .ok config => some (.attach prepare config, g)
    | .error e => some (.abort (invalidConfig e).code, g.setLastError (invalidConfig e))
  | .forward prepare json (spec :: specs) =>
    match x.port with
    | .error e => some (.abort (forwarderFailed spec e).code, g.setLastError (forwarderFailed spec e))
    | .ok localPort =>
      let g := g.onRuntime id fun rt =>
        { rt with forwarders := rt.forwarders ++ [⟨spec.kind, spec.host, spec.port, localPort⟩] }
      -- a panic would end the process
      (rewriteSite json localPort spec.site).map fun json => (.forward prepare json specs, g)
  | .attach prepare config => some (.prepare prepare (attachStatAddress g.statAddr config), g.note (.attached id))
  | .prepare prepare config =>
    match prepare.apply x.tun config with
    | .ok config => some (.spawn config, g)
    | .error f => some (.abort f.code, g.setLastError f)
  | .spawn config => some (.store, g.onRuntime id fun rt => { rt with core := some config })
  | .store =>
    match Dict.get id g.live with
    | some rt => some (.unlock sslocalOk, { g with stored := some id }.note (.stored id rt))
    | none => none
  | .abort code => some (.unlock code, g.drop id)
  | .putStat addr => some (.leave sslocalOk, { g with statAddr := addr }.note (.stat id addr))
  | .idle | .wantLock _ | .unlock _ | .leave _ => none

inductive Move (α : Type) where
  | call (c : EntryCall)
  | step (x : Choice α)

structure Action (α : Type) where
  thread : ℕ
  move : Move α

def World.setPc (w : World α) (t : ℕ) (pc : Pc α) : World α :=
  { w with threads := Function.update w.threads t { w.threads t with pc := pc } }

/-- a step of one thread, when it is ready for it -/
def step (P : Parsers α) (w : World α) (a : Action α) : Option (World α) :=
  let t := a.thread
  let thread := w.threads t
  match a.move, thread.pc with
  | .call c, .idle =>
    some { w with
      shared := w.shared.note (.call t c)
      threads := Function.update w.threads t ⟨w.shared.log.length, c, .begun⟩ }
  | .call _, _ => none
  | .step _, .idle => none
  | .step _, .wantLock job => if w.lock = none then some { w.setPc t (.locked job) with lock := some t } else none
  | .step _, .unlock code => some { w.setPc t (.leave code) with lock := none }
  | .step _, .leave code => some { w.setPc t .idle with shared := w.shared.note (.ret thread.id code) }
  | .step x, pc =>
    (advance P x thread.id thread.call w.shared pc).map fun r => { w.setPc t r.1 with shared := r.2 }

def World.initial : World α := ⟨⟨none, none, none, [], []⟩, none, fun _ => ⟨0, .stop, .idle⟩⟩

/-- the steps of an interleaving, one after another -/
def runSteps (P : Parsers α) (w : World α) (actions : List (Action α)) : Option (World α) :=
  actions.foldlM (step P) w

end ShadowsocksOhos
