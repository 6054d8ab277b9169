/-
Who owns the tun descriptor (`sslocal_start_tun_fd`, `sslocal_stop`, and `teardown` of the VPN extension). The start
duplicates the descriptor that it is given, as the last thing that can fail; the core closes the duplicate some time after
it was stopped, or when it ends by itself, and the system closes the original in `VpnConnection.destroy`.

- `startTunFd_cases`: what a start does to the descriptor table of the process.
- `startTunFd_answer`: apart from that it is the start as the other modules know it.
- `ledger_run`: whoever opens and closes descriptors meanwhile, every close hits the descriptor its holder means.
- `tun_ownership`: both.
-/
import ShadowsocksOhos.Core.Descriptors
import ShadowsocksOhos.Ffi.Running

namespace ShadowsocksOhos

open Descriptors (Descriptor Table Ledger Closed)

namespace TunFd

variable {α : Type}

/-! ## The start, with the descriptor table -/

/-- what is outside the library, for one call -/
structure Answers (α : Type) where
  outcomes : Outcomes α
  /-- the name of the interface behind the descriptor -/
  name : Option Text
  /-- numbers of descriptors stay below it -/
  limit : ℕ
  strerror : Table.DupError → Text

/-- the answers to `attachTun`, when `dup` is called with this table -/
def Answers.tun (x : Answers α) (tunFd : Int) (t : Table) : TunAnswers where
  dup :=
    match t.dup x.limit tunFd.toNat with
    | .ok (d, _) => .ok d.number
    | .error e => .error (x.strerror e)
  name := x.name

/-- the table after `dup` -/
def duplicated (x : Answers α) (tunFd : Int) (t : Table) : Table :=
  match t.dup x.limit tunFd.toNat with
  | .ok (_, t') => t'
  | .error _ => t

/-- the second argument of `start_with_json`; `dup` is called once there is a local for the descriptor -/
def attach (x : Answers α) (tunFd : Int) (config : Config α) (t : Table) : Except Failure (Config α) × Table :=
  (attachTun (x.tun tunFd t) tunFd config, if (tunIndex config.locals).isSome then duplicated x tunFd t else t)

/-- `start_with_json`, when what is done to the config also changes the table -/
def startWithJson (o : Outcomes α) (json : Json) (prepare : Config α → Table → Except Failure (Config α) × Table)
    (g : Globals α) (t : Table) : Option (Int × Globals α) × Table :=
  match extractPluginSpecs json with
  | .error f => (some (g.fail f), t)
  | .ok specs =>
    if g.stored.isSome then (some (g.fail alreadyRunning), t)
    else
      match o.runtimeError with
      | some e => (some (g.fail (noRuntime e)), t)
      | none =>
        match applyPluginForwarders o.forwarder [] json specs with
        | (_, none) => (none, t)
        | (_, some (.error f)) => (some (g.fail f), t)
        | (fs, some (.ok json)) =>
          match o.load json with
          | .error e => (some (g.fail (invalidConfig e)), t)
          | .ok config =>
            match prepare (attachStatAddress g.statAddr config) t with
            | (.error f, t) => (some (g.fail f), t)
            | (.ok config, t) => (some (sslocalOk, { g with stored := some ⟨fs, some config⟩ }), t)

/-- `sslocal_start_tun_fd`: the answer, or `none` for a panic, with the globals and the table after it -/
def startTunFd (P : Parsers α) (x : Answers α) (configJson : CArg) (tunFd : Int) (g : Globals α) (t : Table) :
    Option (Int × Globals α) × Table :=
  if tunFd < 0 then (some (g.fail (Running.invalidTunFd tunFd)), t)
  else
    match parseConfigJson P configJson with
    | .error f => (some (g.fail f), t)
    | .ok json => startWithJson x.outcomes json (attach x tunFd) g t

theorem startWithJson_fst (o : Outcomes α) (json : Json) (prepare : Config α → Table → Except Failure (Config α) × Table)
    (g : Globals α) (t : Table) : (startWithJson o json prepare g t).1 =
      (ShadowsocksOhos.startWithJson o json (fun config => (prepare config t).1) g).1 := by
  unfold startWithJson ShadowsocksOhos.startWithJson
  cases extractPluginSpecs json with
  | error f => rfl
  | ok specs =>
    by_cases hstored : g.stored.isSome = true
    · simp only [if_pos hstored]
    simp only [if_neg hstored]
    cases o.runtimeError with
    | some e => rfl
    | none =>
      rcases applyPluginForwarders o.forwarder [] json specs with ⟨fs, _ | f | json'⟩
      · rfl
      · rfl
      simp only
      cases o.load json' with
      | error e => rfl
      | ok config =>
        simp only
        rcases prepare (attachStatAddress g.statAddr config) t with ⟨f | config', t'⟩ <;> rfl

/-- **Apart from the table** the call is the one that the steps of `Running` know. -/
theorem startTunFd_answer (P : Parsers α) (x : Answers α) (configJson : CArg) (tunFd : Int) (g : Globals α) (t : Table) :
    (startTunFd P x configJson tunFd g t).1 =
      Running.answer P ⟨x.outcomes, x.tun tunFd t⟩ g (.startTunFd configJson tunFd) := by
  simp only [startTunFd, Running.answer, Running.startCall]
  by_cases hneg : tunFd < 0
  · rw [if_pos hneg, if_pos hneg]
  rw [if_neg hneg, if_neg hneg]
  cases parseConfigJson P configJson with
  | error f => rfl
  | ok json => exact startWithJson_fst _ _ _ _ _

/-! ## What a start does to the table -/

variable {P : Parsers α} {x : Answers α} {tunFd : Int} {g g' : Globals α} {t t' : Table} {code : Int}

/-- the descriptor is attached, or it was not duplicated -/
theorem attach_cases {config : Config α} {r : Except Failure (Config α)} (h : attach x tunFd config t = (r, t')) :
    (∃ f, r = .error f ∧ f.Explains g ∧ t' = t) ∨
      ∃ d i, t.dup x.limit tunFd.toNat = .ok (d, t') ∧ tunIndex config.locals = some i ∧
        r = .ok { config with locals := config.locals.modify i (giveTun (x.tun tunFd t) d.number) } := by
  obtain ⟨rfl, rfl⟩ := Prod.mk.inj h
  unfold attachTun duplicated
  cases hi : tunIndex config.locals with
  | none => exact Or.inl ⟨_, rfl, badConfig_explains g _, rfl⟩
  | some i =>
    cases hdup : t.dup x.limit tunFd.toNat with
    | error e =>
      simp only [Answers.tun, hdup]
      exact Or.inl ⟨_, rfl, invalidArg_explains g _, rfl⟩
    | ok r =>
      simp only [Answers.tun, hdup]
      exact Or.inr ⟨r.1, i, rfl, rfl, rfl⟩

/-- what the loader makes of the argument, once the forwarders `fs` stand for its plugins -/
def Loads (P : Parsers α) (o : Outcomes α) (configJson : CArg) (fs : List Forwarder) (loaded : Config α) : Prop :=
  ∃ json specs json', parseConfigJson P configJson = .ok json ∧ extractPluginSpecs json = .ok specs ∧
    applyPluginForwarders o.forwarder [] json specs = (fs, some (.ok json')) ∧ o.load json' = .ok loaded

/-- the loaded config, on its way to the core -/
def prepared (x : Answers α) (tunFd : Int) (t : Table) (statAddr : Option α) (loaded : Config α) (i : ℕ) (d : Descriptor) :
    Config α :=
  { attachStatAddress statAddr loaded with locals := loaded.locals.modify i (giveTun (x.tun tunFd t) d.number) }

/-- **What a start does**: it fails, and the table is as before, or it stores an instance whose config has the duplicate.
-/
theorem startTunFd_cases {configJson : CArg} (h : startTunFd P x configJson tunFd g t = (some (code, g'), t')) :
    code ≠ sslocalOk ∧ g'.stored = g.stored ∧ t' = t ∨
      code = sslocalOk ∧ ¬ tunFd < 0 ∧ ∃ fs loaded d i, Loads P x.outcomes configJson fs loaded ∧
        t.dup x.limit tunFd.toNat = .ok (d, t') ∧ tunIndex loaded.locals = some i ∧
        g'.stored = some ⟨fs, some (prepared x tunFd t g.statAddr loaded i d)⟩ := by
  have hlocals : ∀ config : Config α, (attachStatAddress g.statAddr config).locals = config.locals := fun config => by
    unfold attachStatAddress
    split <;> rfl
  have hfail : ∀ f : Failure, f.Explains g → g.fail f = (code, g') ∧ t = t' →
      code ≠ sslocalOk ∧ g'.stored = g.stored ∧ t' = t := by
    rintro f ⟨hne, -⟩ ⟨hf, rfl⟩
    cases hf
    exact ⟨hne, rfl, rfl⟩
  unfold startTunFd at h
  split_ifs at h with hneg
  · exact Or.inl (hfail (Running.invalidTunFd tunFd) (invalidArg_explains g _) (by simpa using h))
  cases hjson : parseConfigJson P configJson with
  | error f =>
    rw [hjson] at h
    exact Or.inl (hfail f (Running.parseConfigJson_explains g hjson) (by simpa using h))
  | ok json =>
  rw [hjson] at h
  simp only [startWithJson] at h
  cases hspecs : extractPluginSpecs json with
  | error f =>
    rw [hspecs] at h
    refine Or.inl (hfail f (f.explains g ?_ ?_) (by simpa using h)) <;> rw [extractPluginSpecs_code hspecs] <;> decide
  | ok specs =>
  rw [hspecs] at h
  simp only at h
  split_ifs at h with hstored
  · exact Or.inl (hfail alreadyRunning ⟨by decide, fun _ => hstored⟩ (by simpa using h))
  split at h
  · exact Or.inl (hfail (noRuntime _) (noRuntime_explains g _) (by simpa using h))
  split at h
  · cases h
  · rename_i fs f hf
    refine Or.inl (hfail f (f.explains g ?_ ?_) (by simpa using h)) <;> rw [apply_code hf] <;> decide
  split at h
  · exact Or.inl (hfail (invalidConfig _) (badConfig_explains g _) (by simpa using h))
  rename_i json' happly _ loaded hload
  split at h
  · rename_i f t1 hattach
    rcases attach_cases (g := g) hattach with ⟨f', hf', hexp, ht⟩ | ⟨d, i, -, -, hr⟩
    · cases hf'
      exact Or.inl (hfail f hexp (by simpa [ht] using h))
    · cases hr
  · rename_i config t1 hattach
    rcases attach_cases (g := g) hattach with ⟨f', hf', -, -⟩ | ⟨d, i, hdup, hi, hr⟩
    · cases hf'
    · cases hr
      cases h
      rw [hlocals] at hi
      refine Or.inr ⟨rfl, hneg, _, loaded, d, i, ⟨json, specs, json', hjson, hspecs, happly, hload⟩, hdup, hi, ?_⟩
      unfold prepared
      rw [hlocals]

/-! ## What a successful start has made -/

/-- `Config::load_from_str` leaves the descriptor of every local unset -/
def LoadsNoFd (o : Outcomes α) : Prop :=
  ∀ json config, o.load json = .ok config → ∀ l ∈ config.locals, l.tunDeviceFd = none

/-- the descriptor `d` is the one duplicate of `tunFd`, and the one local that the config has a descriptor for is the first
tun local of the loaded config, else its sole local; the other locals are as they were loaded -/
structure OwnDuplicate (tunFd : Int) (t t' : Table) (loaded config : Config α) (d : Descriptor) : Prop where
  opened : t'.opened = d :: t.opened
  same : ∃ e ∈ t.opened, (e.number : Int) = tunFd ∧ e.file = d.file
  ne : (d.number : Int) ≠ tunFd
  local_ : ∃ i, tunIndex loaded.locals = some i ∧
    (∀ j l, config.locals[j]? = some l →
      (l.tunDeviceFd = some (d.number : Int) ↔ j = i) ∧ (j ≠ i → l.tunDeviceFd = none)) ∧
    (∃ l, config.locals[i]? = some l) ∧ ∀ j, j ≠ i → config.locals[j]? = loaded.locals[j]?

theorem tunIndex_lt {locals : List LocalInstance} {i : ℕ} (h : tunIndex locals = some i) : i < locals.length := by
  unfold tunIndex at h
  rcases Option.or_eq_some_iff.1 h with h | ⟨-, h⟩
  · exact (List.findIdx?_eq_some_iff_findIdx_eq.1 h).1
  · split_ifs at h with hlen
    cases h
    omega

/-- the local that the descriptor goes to has it, and no other local has one -/
theorem modify_giveTun {locals : List LocalInstance} (hnone : ∀ l ∈ locals, l.tunDeviceFd = none) (answers : TunAnswers)
    (n i j : ℕ) {l : LocalInstance} (h : (locals.modify i (giveTun answers n))[j]? = some l) :
    (l.tunDeviceFd = some (n : Int) ↔ j = i) ∧ (j ≠ i → l.tunDeviceFd = none) := by
  rw [List.getElem?_modify] at h
  obtain ⟨l', hl', rfl⟩ := Option.map_eq_some_iff.1 h
  have hl := hnone l' (List.mem_of_getElem? hl')
  by_cases hij : i = j
  · rw [if_pos hij]
    exact ⟨iff_of_true rfl hij.symm, fun hne => absurd hij.symm hne⟩
  · rw [if_neg hij]
    refine ⟨iff_of_false ?_ (Ne.symm hij), fun _ => hl⟩
    simp [hl]

theorem ownDuplicate {loaded : Config α} {d : Descriptor} {i : ℕ} (hneg : ¬ tunFd < 0)
    (hnone : ∀ l ∈ loaded.locals, l.tunDeviceFd = none) (hdup : t.dup x.limit tunFd.toNat = .ok (d, t'))
    (hi : tunIndex loaded.locals = some i) :
    OwnDuplicate tunFd t t' loaded (prepared x tunFd t g.statAddr loaded i d) d := by
  obtain ⟨⟨e, he, hn, hfile⟩, hopen⟩ := Table.dup_ok hdup
  have hne := Table.dup_ne hdup
  refine ⟨(Table.openFile_eq hopen).2.1, ⟨e, he, by omega, hfile⟩, by omega, i, hi, ?_, ?_, ?_⟩
  · exact fun j l h => modify_giveTun hnone _ _ i j h
  · have hlt := tunIndex_lt hi
    exact ⟨_, List.getElem?_eq_getElem (by simpa [prepared] using hlt)⟩
  · intro j hj
    exact List.getElem?_modify_ne _ _ (Ne.symm hj)

/-! ## Holders -/

inductive Holder where
  /-- `VpnConnection` -/
  | system
  | core
  /-- any other part of the process -/
  | other
deriving DecidableEq, Repr

structure St (α : Type) where
  globals : Globals α
  table : Table
  /-- the descriptors that somebody is going to close -/
  held : List (Holder × Descriptor)
  /-- the closes so far -/
  log : List Closed

def St.initial : St α := ⟨⟨none, none, none⟩, ⟨[], 0⟩, [], []⟩

/-- the descriptors behind the numbers in the config of the stored instance -/
def given (g : Globals α) (t : Table) : List Descriptor :=
  match g.stored.bind Runtime.core with
  | some config => config.locals.filterMap fun l => l.tunDeviceFd.bind fun n => t.find n.toNat
  | none => []

inductive Action (α : Type) where
  | startTunFd (x : Answers α) (configJson : CArg) (tunFd : Int)
  /-- the runtime of the instance is shut down in the background -/
  | stop
  /-- `VpnConnection.create`, or anything that another part of the process opens -/
  | opens (holder : Holder) (limit file : ℕ)
  /-- a holder closes what it holds: the core when its tun device is dropped, the system in `destroy` -/
  | closes (holder : Holder) (d : Descriptor)

def step (P : Parsers α) (s : St α) : Action α → Option (St α)
  | .startTunFd x configJson tunFd =>
    match startTunFd P x configJson tunFd s.globals s.table with
    | (none, _) => none
    | (some (code, g), t) =>
      -- the core is going to close the descriptors of its config
      some ⟨g, t, (if code = sslocalOk then (given g t).map (Holder.core, ·) else []) ++ s.held, s.log⟩
  | .stop => (Running.answer P ⟨⟨none, fun _ => .error [], fun _ => .error []⟩, ⟨.error [], none⟩⟩ s.globals .stop).map
      fun r => { s with globals := r.2 }
  | .opens holder limit file =>
    if holder = .core then none
    else (s.table.openFile limit file).map fun r => { s with table := r.2, held := (holder, r.1) :: s.held }
  | .closes holder d =>
    -- each of them knows the number only
    if (holder, d) ∈ s.held then
      let (hit, t) := s.table.close d.number
      some { s with table := t, held := s.held.erase (holder, d), log := ⟨d, hit⟩ :: s.log }
    else none

def Action.LoadsNoFd : Action α → Prop
  | .startTunFd x _ _ => TunFd.LoadsNoFd x.outcomes
  | _ => True

/-! ## Steps and runs -/

variable {s s' : St α}

/-- every number in use has one holder, and every close so far has hit what its holder means -/
def St.Ok (s : St α) : Prop := Ledger s.table (s.held.map Prod.snd) s.log

theorem given_eq (g : Globals α) (t : Table) {fs : List Forwarder} {config : Config α}
    (h : g.stored = some ⟨fs, some config⟩) :
    given g t = config.locals.filterMap fun l => l.tunDeviceFd.bind fun n => t.find n.toNat := by
  unfold given
  rw [h]
  rfl

/-- one local has a descriptor -/
theorem filterMap_modify {locals : List LocalInstance} (hnone : ∀ l ∈ locals, l.tunDeviceFd = none) {i : ℕ}
    (hi : i < locals.length) (answers : TunAnswers) (n : ℕ) (f : Int → Option Descriptor) :
    (locals.modify i (giveTun answers n)).filterMap (fun l => l.tunDeviceFd.bind f) = (f n).toList := by
  have hnil : ∀ ls : List LocalInstance, (∀ l ∈ ls, l.tunDeviceFd = none) →
      ls.filterMap (fun l => l.tunDeviceFd.bind f) = [] := by
    intro ls hls
    refine List.filterMap_eq_nil_iff.2 fun l hl => ?_
    rw [hls l hl]
    rfl
  induction locals generalizing i with
  | nil => cases hi
  | cons l ls ih =>
    have hls : ∀ l' ∈ ls, l'.tunDeviceFd = none := fun l' hl' => hnone l' (List.mem_cons_of_mem _ hl')
    cases i with
    | zero =>
      rw [List.modify_zero_cons, List.filterMap_cons, hnil ls hls]
      cases hf : f n <;> simp [giveTun, hf]
    | succ i =>
      rw [List.modify_succ_cons, List.filterMap_cons, hnone l List.mem_cons_self]
      exact ih hls (Nat.lt_of_succ_lt_succ hi)

/-- the core of a successful start holds the duplicate, and nothing else -/
theorem given_start {loaded : Config α} {d : Descriptor} {i : ℕ} {fs : List Forwarder}
    (hnone : ∀ l ∈ loaded.locals, l.tunDeviceFd = none) (hi : tunIndex loaded.locals = some i)
    (hfind : t'.find d.number = some d)
    (hstored : g'.stored = some ⟨fs, some (prepared x tunFd t g.statAddr loaded i d)⟩) : given g' t' = [d] := by
  rw [given_eq g' t' hstored]
  have h := filterMap_modify hnone (tunIndex_lt hi) (x.tun tunFd t) d.number fun n => t'.find n.toNat
  rw [Int.toNat_natCast, hfind] at h
  exact h

theorem ok_start {configJson : CArg} (hs : s.Ok) (hload : LoadsNoFd x.outcomes)
    (h : startTunFd P x configJson tunFd s.globals s.table = (some (code, g'), t')) :
    Ledger t' (((if code = sslocalOk then (given g' t').map (Holder.core, ·) else []) ++ s.held).map Prod.snd) s.log := by
  rcases startTunFd_cases h with ⟨hcode, -, rfl⟩ | ⟨hcode, -, fs, loaded, d, i, hl, hdup, hi, hstored⟩
  · rw [if_neg hcode]
    exact hs
  · obtain ⟨json, specs, json', -, -, -, hjson'⟩ := hl
    have hledger : Ledger t' (d :: s.held.map Prod.snd) s.log := hs.openFile (Table.dup_ok hdup).2
    have hd : d ∈ t'.opened := hledger.held.subset List.mem_cons_self
    rw [if_pos hcode, given_start (hload json' loaded hjson') hi (hledger.find_number hd) hstored]
    exact hledger

theorem ok_step (s : St α) (a : Action α) (s' : St α) (hs : s.Ok) (ha : a.LoadsNoFd) (h : step P s a = some s') :
    s'.Ok := by
  cases a with
  | startTunFd x configJson tunFd =>
    simp only [step] at h
    split at h
    · cases h
    · rename_i code g t hstart
      cases h
      exact ok_start hs ha hstart
  | stop =>
    obtain ⟨r, -, rfl⟩ := Option.map_eq_some_iff.1 h
    exact hs
  | opens holder limit file =>
    simp only [step] at h
    split_ifs at h
    obtain ⟨r, hr, rfl⟩ := Option.map_eq_some_iff.1 h
    exact hs.openFile hr
  | closes holder d =>
    simp only [step] at h
    split_ifs at h with hm
    cases h
    have hperm := (List.perm_cons_erase hm).map Prod.snd
    exact hs.close hperm

theorem ok_initial : (St.initial : St α).Ok := Ledger.empty

/-- after a run every close has hit what its holder means -/
theorem ledger_run {actions : List (Action α)} (ha : ∀ a ∈ actions, a.LoadsNoFd)
    (h : Steps.run (step P) .initial actions = some s) : s.Ok :=
  Steps.run_inv ok_step ok_initial (Steps.along_of_forall ha) h

/-! ## Main result -/

/-- **Ownership of the tun descriptor.**
- A start that fails leaves the descriptor table as it was. One that returns 0 has made one duplicate of `tun_fd`, with
another number, and it is the descriptor of one local: the first tun local, else the sole one. Apart from the table it is
the start as the other modules know it.
- In every run, with starts, stops and other openings in any order, and with the core, the system and everybody else
closing what they hold at any time: every close hits the descriptor that its holder means, and no descriptor is closed
twice. -/
theorem tun_ownership (P : Parsers α) :
    (∀ (x : Answers α) (configJson : CArg) (tunFd : Int) (g g' : Globals α) (t t' : Table) (code : Int),
      LoadsNoFd x.outcomes → startTunFd P x configJson tunFd g t = (some (code, g'), t') →
        Running.answer P ⟨x.outcomes, x.tun tunFd t⟩ g (.startTunFd configJson tunFd) = some (code, g') ∧
        (code ≠ 0 → t' = t) ∧
        (code = 0 → ∃ fs loaded config d, Loads P x.outcomes configJson fs loaded ∧ g'.stored = some ⟨fs, some config⟩ ∧
          OwnDuplicate tunFd t t' loaded config d)) ∧
    ∀ (actions : List (Action α)) (s : St α), (∀ a ∈ actions, a.LoadsNoFd) →
      Steps.run (step P) .initial actions = some s →
        (∀ c ∈ s.log, c.hit = some c.meant) ∧ (s.log.map (·.meant.serial)).Nodup := by
  refine ⟨fun x configJson tunFd g g' t t' code hload h => ?_, fun actions s ha h => ?_⟩
  · refine ⟨(startTunFd_answer P x configJson tunFd g t).symm.trans (congrArg Prod.fst h), ?_⟩
    rcases startTunFd_cases h with ⟨hcode, -, ht⟩ | ⟨hcode, hneg, fs, loaded, d, i, hl, hdup, hi, hstored⟩
    · exact ⟨fun _ => ht, fun hc => absurd hc hcode⟩
    · have hnone : ∀ l ∈ loaded.locals, l.tunDeviceFd = none := by
        obtain ⟨json, specs, json', -, -, -, hjson'⟩ := hl
        exact hload json' loaded hjson'
      exact ⟨fun hc => absurd hcode hc, fun _ => ⟨fs, loaded, _, d, hl, hstored, ownDuplicate hneg hnone hdup hi⟩⟩
  · have hok : s.Ok := ledger_run ha h
    exact ⟨hok.hits, (List.nodup_append.1 hok.serials).1⟩

/-- a config with one tun local -/
def oneTun : Answers ℕ where
  outcomes := ⟨none, fun _ => .ok 9000,
    fun json => .ok ⟨json, [⟨.other "socks".toList, none, none⟩, ⟨.tun, none, none⟩], none⟩⟩
  name := none
  limit := 1024
  strerror := fun _ => []

theorem loadsNoFd_oneTun : LoadsNoFd oneTun.outcomes := by
  intro json config h l hl
  cases h
  simp only [List.mem_cons, List.not_mem_nil, or_false] at hl
  rcases hl with rfl | rfl <;> rfl

/-- the descriptors of the run below: what the system has created, the duplicate, and one that gets the number of the first
-/
def tunDescriptor : Descriptor := ⟨0, 0, 7⟩

def duplicate : Descriptor := ⟨1, 1, 7⟩

def reused : Descriptor := ⟨0, 2, 8⟩

/-- the system closes its descriptor before the core does, and another thread gets the number in between -/
def reusingRun : List (Action ℕ) :=
  [.opens .system 1024 7, .startTunFd oneTun (.text []) 0, .stop, .closes .system tunDescriptor, .opens .other 1024 8,
    .closes .core duplicate, .closes .other reused]

theorem tun_ownership_reusing :
    (∃ g t, startTunFd Running.emptyConfig oneTun (.text []) 0 ⟨none, none, none⟩ ⟨[tunDescriptor], 1⟩ = (some (0, g), t) ∧
      ∃ fs loaded config d, Loads Running.emptyConfig oneTun.outcomes (.text []) fs loaded ∧
        g.stored = some ⟨fs, some config⟩ ∧ OwnDuplicate 0 ⟨[tunDescriptor], 1⟩ t loaded config d) ∧
    ∃ s, Steps.run (step Running.emptyConfig) .initial reusingRun = some s ∧ s.log.length = 3 ∧
      (∀ c ∈ s.log, c.hit = some c.meant) ∧ (s.log.map (·.meant.serial)).Nodup := by
  obtain ⟨hcall, hrun⟩ := tun_ownership Running.emptyConfig
  constructor
  · have h : ∃ g t, startTunFd Running.emptyConfig oneTun (.text []) 0 ⟨none, none, none⟩ ⟨[tunDescriptor], 1⟩ =
        (some (0, g), t) := ⟨_, _, rfl⟩
    obtain ⟨g, t, h⟩ := h
    exact ⟨g, t, h, (hcall oneTun (.text []) 0 _ g _ t 0 loadsNoFd_oneTun h).2.2 rfl⟩
  · have h : ∃ s, Steps.run (step Running.emptyConfig) .initial reusingRun = some s ∧ s.log.length = 3 := ⟨_, rfl, rfl⟩
    obtain ⟨s, h, hlen⟩ := h
    refine ⟨s, h, hlen, hrun reusingRun s (fun a ha => ?_) h⟩
    simp only [reusingRun, List.mem_cons, List.not_mem_nil, or_false] at ha
    rcases ha with rfl | rfl | rfl | rfl | rfl | rfl | rfl
    · trivial
    · exact loadsNoFd_oneTun
    all_goals trivial

end TunFd

end ShadowsocksOhos
