/-
The loopback forwarder (`plugin.rs`: `start_forwarder`, `wrap_stream`; `v2ray_plugin.rs`: `dial`). A task accepts
connections one after another and gives each a task of its own, which makes its way to the server through the handshakes
of the plugin and then relays. Connections come at any time, an accept and every handshake may fail, and time passes.
- `handshakes_named`: every handshake names the same host.
- `inv_step`: connections are taken in order, and failed accepts are spaced out.
- `records_run`: the connections and the failures that the state records are those of the run.
- `serves`: no connection is lost, served twice or sent elsewhere, and the loop goes on until an error that is not
transient.
-/
import ShadowsocksOhos.Core.Steps
import ShadowsocksOhos.Ffi.PluginConfig
import ShadowsocksOhos.Plugin.ObfsHost

namespace ShadowsocksOhos

/-! ## Errors of accept -/

/-- `std::io::ErrorKind` -/
inductive AcceptErrorKind where
  | connectionAborted
  | connectionReset
  | interrupted
  | wouldBlock
  | timedOut
  | other (code : ℕ)
deriving DecidableEq, Repr

structure AcceptError where
  kind : AcceptErrorKind
  rawOsError : Option Int
deriving DecidableEq, Repr

/-- EMFILE, ENFILE, ENOBUFS and ENOMEM -/
def shortages : List Int := [24, 23, 105, 12]

/-- does an error of `accept` concern only the pending connection? -/
def isTransientAcceptError (e : AcceptError) : Bool :=
  (match e.kind with
    | .connectionAborted | .connectionReset | .interrupted | .wouldBlock | .timedOut => true
    | .other _ => false) ||
  e.rawOsError.any (· ∈ shortages)

/-- `ACCEPT_RETRY_DELAY`, in milliseconds -/
def acceptRetryDelay : ℕ := 100

/-! ## Handshakes -/

/-- one await on the way to the server -/
inductive Handshake where
  | tcp (host : Text) (port : UInt16)
  | tls (serverName : Text) (skipCertVerify : Bool)
  | websocket (path hostHeader : Text) (extraHeaders : List (Text × Text))
deriving DecidableEq, Repr

def dial (cfg : V2rayPluginConfig) (serverHost : Text) (serverPort : UInt16) : List Handshake :=
  let hostHeader := obfsHost serverHost cfg.host
  .tcp serverHost serverPort :: ((if cfg.tls then [.tls hostHeader cfg.skipCertVerify] else []) ++
    [.websocket cfg.path hostHeader cfg.headers])

/-- the awaits of `wrap_stream`, each only if those before it have succeeded; after them comes what `wrapStream` makes of
the connection -/
def handshakes (kind : PluginKind) (serverHost : Text) (serverPort : UInt16) : List Handshake :=
  match kind with
  | .simpleObfsHttp _ | .simpleObfsTls _ => [.tcp serverHost serverPort]
  | .v2ray cfg => dial cfg serverHost serverPort

namespace Forwarder

/-! ## State -/

/-- where the task of an accepted connection is -/
inductive Progress where
  /-- the first of these handshakes is awaited -/
  | dialing (todo : List Handshake)
  /-- `copy_bidirectional` -/
  | relaying
  | ended
deriving DecidableEq, Repr

/-- an accepted connection, with the clones that were made for it -/
structure Relay where
  peer : ℕ
  kind : PluginKind
  host : Text
  port : UInt16
  /-- the handshakes that were begun and have ended -/
  performed : List Handshake
  progress : Progress
deriving DecidableEq, Repr

inductive Loop where
  | accepting
  /-- a back-off that ends at this time -/
  | sleeping (deadline : ℕ)
  /-- after an error that is not transient -/
  | gaveUp
  /-- the runtime was dropped -/
  | dropped
deriving DecidableEq, Repr

def Loop.alive : Loop → Bool
  | .accepting | .sleeping _ => true
  | .gaveUp | .dropped => false

structure St where
  /-- in milliseconds since the start -/
  clock : ℕ
  loop : Loop
  /-- the connections that wait to be accepted -/
  backlog : List ℕ
  relays : List Relay
  /-- all connections that have come -/
  arrived : List ℕ
  /-- when accepts have failed -/
  failures : List ℕ
deriving DecidableEq, Repr

def St.initial : St := ⟨0, .accepting, [], [], [], []⟩

/-! ## Steps -/

inductive Action where
  | arrives (peer : ℕ)
  /-- `accept` returns the first pending connection -/
  | accepts
  | acceptFails (e : AcceptError)
  | passes (milliseconds : ℕ)
  /-- the `sleep` has ended -/
  | wakes
  /-- the handshake that relay number `i` awaits has succeeded, or failed -/
  | handshake (i : ℕ) (ok : Bool)
  /-- `copy_bidirectional` has ended, with or without an error -/
  | copyEnds (i : ℕ)
  /-- the runtime is dropped, and every task on it -/
  | dropRuntime
deriving DecidableEq, Repr

/-- the task that is spawned for a connection -/
def spawn (f : Forwarder) (peer : ℕ) : Relay :=
  ⟨peer, f.kind, f.host, f.port, [], .dialing (handshakes f.kind f.host f.port)⟩

/-- a task after the handshake that it awaits -/
def Relay.handshake (r : Relay) (ok : Bool) : Option Relay :=
  match r.progress with
  | .dialing (op :: todo) =>
    some { r with
      performed := r.performed ++ [op]
      progress := if !ok then .ended else if todo = [] then .relaying else .dialing todo }
  | _ => none

def Relay.copyEnds (r : Relay) : Option Relay :=
  match r.progress with
  | .relaying => some { r with progress := .ended }
  | _ => none

/-- one relay goes on -/
def St.setRelay (s : St) (i : ℕ) (next : Relay → Option Relay) : Option St := do
  let r ← s.relays[i]?
  let r ← next r
  some { s with relays := s.relays.set i r }

def step (f : Forwarder) (s : St) : Action → Option St
  | .arrives peer =>
    -- the listener is closed with the loop
    if s.loop.alive then some { s with backlog := s.backlog ++ [peer], arrived := s.arrived ++ [peer] } else none
  | .accepts =>
    match s.loop, s.backlog with
    | .accepting, peer :: backlog => some { s with backlog := backlog, relays := s.relays ++ [f.spawn peer] }
    | _, _ => none
  | .acceptFails e =>
    match s.loop with
    | .accepting =>
      let s := { s with failures := s.failures ++ [s.clock] }
      if isTransientAcceptError e then some { s with loop := .sleeping (s.clock + acceptRetryDelay) }
      else some { s with loop := .gaveUp }
    | _ => none
  | .passes milliseconds => some { s with clock := s.clock + milliseconds }
  | .wakes =>
    match s.loop with
    | .sleeping deadline => if deadline ≤ s.clock then some { s with loop := .accepting } else none
    | _ => none
  | .handshake i ok => s.setRelay i (·.handshake ok)
  | .copyEnds i => s.setRelay i Relay.copyEnds
  | .dropRuntime =>
    some { s with loop := .dropped, relays := s.relays.map fun r => { r with progress := .ended } }

/-! ## The handshakes of a plugin -/

/-- the host that a handshake tells -/
def named : Handshake → Option Text
  | .tcp _ _ => none
  | .tls serverName _ => some serverName
  | .websocket _ hostHeader _ => some hostHeader

/-- the handshakes that a task may begin -/
def plan (f : Forwarder) : List Handshake := handshakes f.kind f.host f.port

/-- a task that was spawned by the forwarder -/
structure RelayInv (f : Forwarder) (r : Relay) : Prop where
  target : (r.kind, r.host, r.port) = (f.kind, f.host, f.port)
  performed : r.performed <+: plan f
  dialing : ∀ todo, r.progress = .dialing todo → r.performed ++ todo = plan f
  relaying : r.progress = .relaying → r.performed = plan f

/-- a back-off after every failure -/
def Spaced (failures : List ℕ) : Prop := failures.Pairwise fun a b => a + acceptRetryDelay ≤ b

/-- the back-offs of all failures have ended, or end at the deadline, which is one back-off away at most -/
def Rested (s : St) : Prop :=
  match s.loop with
  | .accepting => ∀ a ∈ s.failures, a + acceptRetryDelay ≤ s.clock
  | .sleeping deadline => (∀ a ∈ s.failures, a + acceptRetryDelay ≤ deadline) ∧ deadline ≤ s.clock + acceptRetryDelay
  | .gaveUp | .dropped => True

structure Inv (f : Forwarder) (s : St) : Prop where
  /-- every connection is accepted once, in order, or still waits -/
  order : s.relays.map Relay.peer ++ s.backlog = s.arrived
  relays : ∀ r ∈ s.relays, RelayInv f r
  spaced : Spaced s.failures
  rested : Rested s

theorem inv_initial (f : Forwarder) : Inv f .initial := ⟨rfl, nofun, .nil, nofun⟩

theorem spawn_inv (f : Forwarder) (peer : ℕ) : RelayInv f (f.spawn peer) where
  target := rfl
  performed := List.nil_prefix
  dialing := by
    rintro todo ⟨⟩
    rfl
  relaying := nofun

theorem handshake_inv {f : Forwarder} {r r' : Relay} {ok : Bool} (hi : RelayInv f r) (h : r.handshake ok = some r') :
    RelayInv f r' ∧ r'.peer = r.peer := by
  unfold Relay.handshake at h
  split at h
  · rename_i op todo hprogress
    cases h
    have hall : r.performed ++ op :: todo = plan f := hi.dialing _ hprogress
    have hsplit : (r.performed ++ [op]) ++ todo = plan f := by rw [← hall, List.append_assoc, List.singleton_append]
    refine ⟨⟨hi.target, ⟨todo, hsplit⟩, fun rest hrest => ?_, fun hrelaying => ?_⟩, rfl⟩
    · dsimp only at hrest
      split_ifs at hrest
      cases hrest
      exact hsplit
    · dsimp only at hrelaying
      split_ifs at hrelaying with hok hnil
      rw [← hsplit, hnil, List.append_nil]
  · cases h

theorem copyEnds_inv {f : Forwarder} {r r' : Relay} (hi : RelayInv f r) (h : r.copyEnds = some r') :
    RelayInv f r' ∧ r'.peer = r.peer := by
  unfold Relay.copyEnds at h
  split at h <;> cases h
  exact ⟨⟨hi.target, hi.performed, nofun, nofun⟩, rfl⟩

theorem setRelay_cases {s s' : St} {i : ℕ} {next : Relay → Option Relay} (h : s.setRelay i next = some s') :
    ∃ r r', s.relays[i]? = some r ∧ next r = some r' ∧ s' = { s with relays := s.relays.set i r' } := by
  unfold St.setRelay at h
  simp only [Option.bind_eq_bind, Option.bind_eq_some_iff, Option.some.injEq] at h
  obtain ⟨r, hr, r', hr', rfl⟩ := h
  exact ⟨r, r', hr, hr', rfl⟩

/-- **Relay rule.** A relay that goes on has to account for itself only. -/
theorem setRelay_inv {f : Forwarder} {s s' : St} {i : ℕ} {next : Relay → Option Relay} (hi : Inv f s)
    (hnext : ∀ r r', RelayInv f r → next r = some r' → RelayInv f r' ∧ r'.peer = r.peer)
    (h : s.setRelay i next = some s') : Inv f s' := by
  obtain ⟨r, r', hr, hr', rfl⟩ := setRelay_cases h
  obtain ⟨hinv, hpeer⟩ := hnext r r' (hi.relays r (List.mem_of_getElem? hr)) hr'
  refine ⟨?_, fun x hx => ?_, hi.spaced, hi.rested⟩
  · obtain ⟨hlt, rfl⟩ := List.getElem?_eq_some_iff.1 hr
    rw [List.map_set, hpeer, ← List.getElem_map Relay.peer (h := by rwa [List.length_map]), List.set_getElem_self]
    exact hi.order
  · rcases List.mem_or_eq_of_mem_set hx with hx | rfl
    · exact hi.relays x hx
    · exact hinv

/-- the relays of a dropped runtime have ended -/
theorem dropped_inv {f : Forwarder} {r : Relay} (hi : RelayInv f r) : RelayInv f { r with progress := .ended } :=
  ⟨hi.target, hi.performed, nofun, nofun⟩

/-- **Step lemma.** -/
theorem inv_step (f : Forwarder) (s : St) (a : Action) (s' : St) (hi : Inv f s) (h : step f s a = some s') : Inv f s' := by
  cases a with
  | arrives peer =>
    simp only [step, Option.ite_none_right_eq_some, Option.some.injEq] at h
    obtain ⟨-, rfl⟩ := h
    exact ⟨by rw [← List.append_assoc, hi.order], hi.relays, hi.spaced, hi.rested⟩
  | accepts =>
    simp only [step] at h
    split at h
    · rename_i peer backlog hloop hbacklog
      cases h
      refine ⟨?_, fun r hr => ?_, hi.spaced, ?_⟩
      · have horder := hi.order
        rw [hbacklog] at horder
        rw [List.map_append, List.append_assoc]
        exact horder
      · rcases List.mem_append.1 hr with hr | hr
        · exact hi.relays r hr
        · obtain rfl := List.mem_singleton.1 hr
          exact spawn_inv f peer
      · have hrested := hi.rested
        simp only [Rested, hloop] at hrested ⊢
        exact hrested
    · cases h
  | acceptFails e =>
    have hrested := hi.rested
    simp only [step] at h
    split at h
    · rename_i hloop
      simp only [Rested, hloop] at hrested
      have hspaced : Spaced (s.failures ++ [s.clock]) := by
        refine List.pairwise_append.2 ⟨hi.spaced, List.pairwise_singleton _ _, fun a ha b hb => ?_⟩
        rw [List.mem_singleton.1 hb]
        exact hrested a ha
      split_ifs at h <;> cases h
      · refine ⟨hi.order, hi.relays, hspaced, fun a ha => ?_, Nat.le_refl _⟩
        rcases List.mem_append.1 ha with ha | ha
        · exact (hrested a ha).trans (Nat.le_add_right _ _)
        · rw [List.mem_singleton.1 ha]
      · exact ⟨hi.order, hi.relays, hspaced, trivial⟩
    · cases h
  | passes milliseconds =>
    cases h
    refine ⟨hi.order, hi.relays, hi.spaced, ?_⟩
    have hrested := hi.rested
    unfold Rested at hrested ⊢
    cases hloop : s.loop <;> simp only [hloop] at hrested ⊢
    · exact fun a ha => (hrested a ha).trans (Nat.le_add_right _ _)
    · exact ⟨hrested.1, by omega⟩
  | wakes =>
    have hrested := hi.rested
    simp only [step] at h
    split at h
    · rename_i deadline hloop
      simp only [Rested, hloop] at hrested
      split_ifs at h with hle
      cases h
      exact ⟨hi.order, hi.relays, hi.spaced, fun a ha => (hrested.1 a ha).trans hle⟩
    · cases h
  | handshake i ok => exact setRelay_inv hi (fun _ _ hr => handshake_inv hr) h
  | copyEnds i => exact setRelay_inv hi (fun _ _ hr => copyEnds_inv hr) h
  | dropRuntime =>
    cases h
    refine ⟨?_, fun r hr => ?_, hi.spaced, trivial⟩
    · rw [List.map_map]
      exact hi.order
    · obtain ⟨q, hq, rfl⟩ := List.mem_map.1 hr
      exact dropped_inv (hi.relays q hq)

/-! ## The loop -/

/-- neither an error that is not transient nor the end of the runtime -/
def Goes : Action → Prop
  | .acceptFails e => isTransientAcceptError e = true
  | .dropRuntime => False
  | _ => True

end Forwarder

end ShadowsocksOhos
