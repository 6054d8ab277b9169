/-
`sslocal_is_running` and the core that it speaks of (`lib.rs`). Each call of the C ABI is one step, since the lock of
`INSTANCE` puts them in an order; in between, the `run_local` task that a start has spawned may end by itself. Nothing
tells the stored instance.

- `startCall_cases`: what a start can do.
- `tells_step`: the one step that makes the answer wrong is the end of a task that nobody stopped.
- `tells_iff`: runs.
- `stale`: a local port that is in use.
-/
import ShadowsocksOhos.Core.Steps
import ShadowsocksOhos.Ffi.Threads

namespace ShadowsocksOhos

namespace Running

variable {α : Type}

/-! ## State -/

/-- a `run_local` task -/
inductive Task where
  | running
  /-- the runtime was shut down under it -/
  | stopped
  | ended
deriving DecidableEq, Repr

structure St (α : Type) where
  globals : Globals α
  /-- the tasks of the successful starts, the last one first -/
  tasks : List Task

def St.initial : St α := ⟨⟨none, none, none⟩, []⟩

/-! ## The calls -/

/-- what is outside the library, for one call -/
structure Answers (α : Type) where
  outcomes : Outcomes α
  tun : TunAnswers

def startCall (P : Parsers α) (x : Answers α) (configJson : CArg) (prepare : Prepare) (g : Globals α) :
    Option (Int × Globals α) :=
  match parseConfigJson P configJson with
  | .error f => some (g.fail f)
  | .ok json => (startWithJson x.outcomes json (prepare.apply x.tun) g).1

def invalidTunFd (tunFd : Int) : Failure :=
  ⟨sslocalErrInvalidArg, "invalid tun file descriptor: ".toList ++ (toString tunFd).toList⟩

/-- the answer of a call and the globals after it, `none` for a panic -/
def answer (P : Parsers α) (x : Answers α) (g : Globals α) : EntryCall → Option (Int × Globals α)
  | .start configJson => startCall P x configJson .plain g
  | .startTunFd configJson tunFd =>
    if tunFd < 0 then some (g.fail (invalidTunFd tunFd)) else startCall P x configJson (.tun tunFd) g
  | .stop =>
    match g.stored with
    | some _ => some (sslocalOk, { g with stored := none })
    | none => some (g.fail notRunning)
  | .isRunning => some (if g.stored.isSome then 1 else 0, g)
  | .setStatAddress arg =>
    match statArg P arg with
    | .ok addr => some (sslocalOk, { g with statAddr := addr })
    | .error f => some (g.fail f)

/-- the tasks after a call that returned `code`: a start has spawned one, a stop has stopped the last one -/
def tasksAfter (code : Int) (tasks : List Task) : EntryCall → List Task
  | .start _ | .startTunFd _ _ => if code = sslocalOk then .running :: tasks else tasks
  | .stop => if code = sslocalOk then tasks.modifyHead fun t => if t = .running then .stopped else t else tasks
  | .isRunning | .setStatAddress _ => tasks

/-! ## Steps -/

inductive Action (α : Type) where
  | call (c : EntryCall) (x : Answers α)
  /-- a task ends, with an error or without; one that was stopped may still be on its way -/
  | ends (i : ℕ) (error : Option Text)

/-- what the spawned block does after `run_local` -/
def exited (g : Globals α) : Option Text → Globals α
  | some e => { g with lastError := some (cString ("sslocal exited with error: ".toList ++ e)) }
  | none => g

def step (P : Parsers α) (s : St α) : Action α → Option (St α)
  | .call c x => (answer P x s.globals c).map fun r => ⟨r.2, tasksAfter r.1 s.tasks c⟩
  | .ends i error =>
    match s.tasks[i]? with
    | some .running | some .stopped => some ⟨exited s.globals error, s.tasks.set i .ended⟩
    | _ => none

/-- the task of the last successful start -/
def St.lastTask (s : St α) : Option Task := s.tasks.head?

/-- `sslocal_is_running` returns 1 exactly when the task of the last successful start has neither ended nor been
stopped, and once that task has ended a start with a valid config is not refused as a second one -/
structure Tells (P : Parsers α) (s : St α) : Prop where
  isRunning : ∀ x code g, answer P x s.globals .isRunning = some (code, g) → (code = 1 ↔ s.lastTask = some .running)
  restart : s.lastTask = some .ended → ∀ configJson j, startJob P configJson .plain = .ok j →
    ∀ x code g, answer P x s.globals (.start configJson) = some (code, g) → code ≠ sslocalErrAlreadyRunning

/-- no task ends that should be running -/
def CoreStays (s : St α) : Action α → Prop
  | .ends i _ => ¬ (i = 0 ∧ s.lastTask = some .running)
  | .call _ _ => True

instance (s : St α) : (a : Action α) → Decidable (CoreStays s a)
  | .ends _ _ => inferInstanceAs (Decidable (¬ _))
  | .call _ _ => inferInstanceAs (Decidable True)

/-! ## One call -/

variable {P : Parsers α} {x : Answers α} {g g' : Globals α} {code : Int}

theorem prepare_explains (g : Globals α) (tun : TunAnswers) (prepare : Prepare) (config : Config α) (f : Failure)
    (h : prepare.apply tun config = .error f) : f.Explains g := by
  cases prepare with
  | plain => cases h
  | tun tunFd => exact attachTun_explains g h

theorem parseConfigJson_explains (g : Globals α) {configJson : CArg} {f : Failure}
    (h : parseConfigJson P configJson = .error f) : f.Explains g := by
  unfold parseConfigJson at h
  cases ha : cstrArg "config_json".toList configJson with
  | error f' =>
    rw [ha] at h
    cases h
    cases configJson <;> cases ha <;> exact invalidArg_explains g _
  | ok text =>
    rw [ha] at h
    cases hj : P.json text with
    | error e =>
      simp only [hj, bind, Except.bind] at h
      cases h
      exact badConfig_explains g _
    | ok json =>
      simp only [hj, bind, Except.bind] at h
      cases h

/-- a start returns 0 and stores an instance where there was none, or returns an error and leaves what is stored -/
theorem startCall_cases {configJson : CArg} {prepare : Prepare} (h : startCall P x configJson prepare g = some (code, g')) :
    code = sslocalOk ∧ g.stored = none ∧ g'.stored.isSome ∨
      code ≠ sslocalOk ∧ g'.stored = g.stored ∧ (code = sslocalErrAlreadyRunning → g.stored.isSome) := by
  unfold startCall at h
  split at h
  · rename_i f hf
    cases h
    obtain ⟨hne, halready⟩ := parseConfigJson_explains g hf
    exact Or.inr ⟨hne, rfl, halready⟩
  · rename_i json hjson
    have hstart : startWithJson x.outcomes json (prepare.apply x.tun) g = (some (code, g'),
      (startWithJson x.outcomes json (prepare.apply x.tun) g).2) := Prod.ext h rfl
    rcases startWithJson_cases (prepare_explains g x.tun prepare) hstart with
      ⟨f, hf, hne, halready⟩ | ⟨hcode, hnone, -, -, -, -, -, rfl⟩
    · cases hf
      exact Or.inr ⟨hne, rfl, halready⟩
    · exact Or.inl ⟨hcode, hnone, rfl⟩

/-! ## One step -/

/-- the answer is right exactly when an instance is stored just while the last task runs; then nothing is refused after
the end of a task -/
theorem tells_iff_stored {s : St α} : Tells P s ↔ (s.globals.stored.isSome ↔ s.lastTask = some .running) := by
  have hanswer : ∀ b : Bool, (if b then (1 : Int) else 0) = 1 ↔ b = true := by decide
  constructor
  · intro h
    rw [← h.isRunning ⟨⟨none, fun _ => .error [], fun _ => .error []⟩, ⟨.error [], none⟩⟩ _ _ rfl]
    exact (hanswer _).symm
  · intro h
    refine ⟨fun x code g hx => ?_, fun hended configJson j hj x code g hx => ?_⟩
    · cases hx
      exact (hanswer _).trans h
    · rcases startCall_cases hx with ⟨rfl, -, -⟩ | ⟨-, -, halready⟩
      · decide
      · intro hc
        rw [h.1 (halready hc)] at hended
        cases hended

theorem tells_initial (P : Parsers α) : Tells P .initial := tells_iff_stored.2 (iff_of_false nofun nofun)

/-- only the stored instance and the last task matter -/
theorem Tells.congr {s s' : St α} (hs : Tells P s) (hstored : s'.globals.stored = s.globals.stored)
    (htasks : s'.lastTask = s.lastTask) : Tells P s' := by
  rw [tells_iff_stored] at hs ⊢
  rw [hstored, htasks]
  exact hs

/-- a start keeps the answer right -/
theorem tells_start {s : St α} {configJson : CArg} {prepare : Prepare} (hs : Tells P s)
    (h : startCall P x configJson prepare s.globals = some (code, g')) :
    Tells P ⟨g', if code = sslocalOk then .running :: s.tasks else s.tasks⟩ := by
  rw [tells_iff_stored] at hs ⊢
  rcases startCall_cases h with ⟨hcode, -, hsome⟩ | ⟨hcode, hsame, -⟩
  · rw [if_pos hcode]
    exact iff_of_true hsome rfl
  · rw [if_neg hcode, hsame]
    exact hs

/-- a stop takes the instance, and its task does not run any more -/
theorem tells_stop {s : St α} (hs : Tells P s) (h : answer P x s.globals .stop = some (code, g')) :
    Tells P ⟨g', tasksAfter code s.tasks .stop⟩ := by
  rw [tells_iff_stored] at hs ⊢
  simp only [answer] at h
  split at h
  · cases h
    refine iff_of_false nofun ?_
    unfold St.lastTask tasksAfter
    rw [if_pos rfl]
    cases s.tasks with
    | nil => exact nofun
    | cons t ts => cases t <;> exact nofun
  · cases h
    exact hs

theorem tells_call {s : St α} {c : EntryCall} (hs : Tells P s) (h : answer P x s.globals c = some (code, g')) :
    Tells P ⟨g', tasksAfter code s.tasks c⟩ := by
  cases c with
  | start configJson => exact tells_start hs h
  | startTunFd configJson tunFd =>
    simp only [answer] at h
    split_ifs at h
    · cases h
      exact hs.congr rfl rfl
    · exact tells_start hs h
  | stop => exact tells_stop hs h
  | isRunning =>
    cases h
    exact hs
  | setStatAddress arg =>
    simp only [answer] at h
    split at h
    · cases h
      exact hs.congr rfl rfl
    · cases h
      exact hs.congr rfl rfl

theorem exited_stored (g : Globals α) (error : Option Text) : (exited g error).stored = g.stored := by
  cases error <;> rfl

/-- the end of a task leaves the instance stored -/
theorem tells_ends {s s' : St α} {i : ℕ} {error : Option Text} (hs : Tells P s) (h : step P s (.ends i error) = some s') :
    Tells P s' ↔ ¬ (i = 0 ∧ s.lastTask = some .running) := by
  have hs' : s' = ⟨exited s.globals error, s.tasks.set i .ended⟩ := by
    simp only [step] at h
    split at h
    · exact (Option.some.inj h).symm
    · exact (Option.some.inj h).symm
    · cases h
  have hi : i < s.tasks.length := by
    by_contra hc
    simp only [step, List.getElem?_eq_none (not_lt.1 hc)] at h
    cases h
  rw [tells_iff_stored] at hs
  rw [tells_iff_stored, hs']
  unfold St.lastTask at hs ⊢
  simp only [exited_stored]
  cases i with
  | zero =>
    obtain ⟨t, ts, hts⟩ := List.exists_cons_of_length_pos hi
    rw [hts] at hs ⊢
    simp only [List.head?_cons, List.set_cons_zero, true_and] at hs ⊢
    rw [hs]
    refine ⟨fun hiff hrun => ?_, fun hrun => iff_of_false hrun nofun⟩
    cases hiff.1 hrun
  | succ i =>
    have hhead : (s.tasks.set (i + 1) .ended).head? = s.tasks.head? := by
      cases s.tasks with
      | nil => rfl
      | cons t ts => rfl
    rw [hhead]
    exact iff_of_true hs fun hc => Nat.succ_ne_zero i hc.1

/-- a step keeps the answer right if and only if it is not the end of a task that should be running -/
theorem tells_step (s : St α) (a : Action α) (s' : St α) (hs : Tells P s) (h : step P s a = some s') :
    Tells P s' ↔ CoreStays s a := by
  cases a with
  | call c x =>
    obtain ⟨r, hr, rfl⟩ := Option.map_eq_some_iff.1 h
    exact iff_of_true (tells_call hs hr) trivial
  | ends i error => exact tells_ends hs h

/-! ## Runs -/

/-- **In every state of a run `sslocal_is_running` tells whether the core runs, if and only if no task of the run ends
before it is stopped.** -/
theorem tells_iff (P : Parsers α) (actions : List (Action α)) (s : St α)
    (h : Steps.run (step P) .initial actions = some s) :
    (∀ before after t, actions = before ++ after → Steps.run (step P) .initial before = some t → Tells P t) ↔
      Steps.Along (step P) CoreStays .initial actions :=
  (Steps.along_iff_always tells_step (tells_initial P) h).symm

/-- every text is the empty config, and everything goes well -/
def emptyConfig : Parsers ℕ := ⟨fun _ => .ok (.obj []), fun _ => .ok 7⟩

def goesWell : Answers ℕ := ⟨⟨none, fun _ => .ok 9000, fun json => .ok ⟨json, [], none⟩⟩, ⟨.ok 5, none⟩⟩

/-- two starts, with a stop between them, after which the first task comes to its end -/
def stoppedRun : List (Action ℕ) :=
  [.call (.start (.text [])) goesWell, .call .isRunning goesWell, .call .stop goesWell, .ends 0 none,
    .call (.start (.text [])) goesWell]

theorem tells_iff_stopped : ∃ s, Steps.run (step emptyConfig) .initial stoppedRun = some s ∧
    s.tasks = [.running, .ended] ∧ Tells emptyConfig s := by
  have hrun : ∃ s, Steps.run (step emptyConfig) .initial stoppedRun = some s ∧ s.tasks = [.running, .ended] := ⟨_, rfl, rfl⟩
  obtain ⟨s, hs, htasks⟩ := hrun
  exact ⟨s, hs, htasks, (tells_iff emptyConfig stoppedRun s hs).2 (by decide) stoppedRun [] s (by simp) hs⟩

/-- **A stale answer**: the port of the local service is in use, and the core exits right after a start that returned 0.
-/
theorem stale : ¬ ∀ (P : Parsers ℕ) (actions : List (Action ℕ)) (s : St ℕ),
    Steps.run (step P) .initial actions = some s → Tells P s := by
  intro h
  have hs := h emptyConfig [.call (.start (.text [])) goesWell, .ends 0 (some "Address already in use".toList)] _ rfl
  have hanswer := (hs.isRunning goesWell 1 _ rfl).1 rfl
  cases hanswer

end Running

end ShadowsocksOhos
