/-
The main page (`Index.ets`): connecting, disconnecting and the timer that polls the traffic stats. Code between two awaits
runs without interruption. A `connect` awaits the start of the VPN extension, twice if the first attempt is rejected, a
`disconnect` awaits its stop, and meanwhile the page goes on: it takes more clicks, polls, or disappears. Which of the
waiting calls goes on next is open.
- `Inv`: the timer that the page knows is the only one that runs.
- `polling_exact`: so there is one exactly while the page is connected, and when the page disappears nothing is left of it
exactly if no `connect` is waiting then.
- `polling_exact_leaving`: a page that disappears while it connects.
-/
import ShadowsocksOhos.App.TrafficStats
import ShadowsocksOhos.Core.Steps

namespace ShadowsocksOhos

namespace MainPage

/-! ## State -/

/-- the awaits of a `connect` -/
inductive Attempt where
  | first
  /-- the retry after a rejected start -/
  | second
deriving DecidableEq, Repr

structure Page where
  connected : Bool
  txTotal : ℚ
  rxTotal : ℚ
  /-- `none` stands for an overflow -/
  txRate : Option ℚ
  rxRate : Option ℚ
  /-- `none` for -1 -/
  statsTimer : Option ℕ
  lastStats : Option TrafficStats
  /-- the intervals that have been set and not been cleared -/
  timers : List ℕ
  /-- the number of the next interval -/
  nextTimer : ℕ
  /-- the calls of `connect` that wait -/
  starting : List Attempt
  /-- how many calls of `disconnect` wait -/
  stopping : ℕ
  /-- the page has disappeared -/
  gone : Bool
deriving DecidableEq

def Page.initial : Page := ⟨false, 0, 0, some 0, some 0, none, none, [], 0, [], 0, false⟩

/-! ## Methods -/

def Page.stopStatsPolling (p : Page) : Page :=
  match p.statsTimer with
  | some id => { p with timers := p.timers.erase id, statsTimer := none }
  | none => p

/-- up to `setInterval` -/
def Page.startStatsPolling (p : Page) : Page :=
  let p := p.stopStatsPolling
  { p with
    lastStats := none
    txTotal := 0
    rxTotal := 0
    txRate := some 0
    rxRate := some 0
    timers := p.nextTimer :: p.timers
    statsTimer := some p.nextTimer
    nextTimer := p.nextTimer + 1 }

/-- the rates of a sample after another one -/
def rates (stats last : TrafficStats) : Option ℚ × Option ℚ :=
  match TrafficStats.deltaSec stats last with
  | some deltaSec => (TrafficStats.rate stats.tx last.tx deltaSec, TrafficStats.rate stats.rx last.rx deltaSec)
  | none => (none, none)

/-- the callback of the timer, after `TrafficStatsStore.load`; of a document of another type nothing is said -/
def Page.onLoaded (p : Page) : TrafficStats.Loaded → Page
  | .stats stats =>
    let p :=
      match p.lastStats with
      | some last =>
        if last.timestamp < stats.timestamp then { p with txRate := (rates stats last).1, rxRate := (rates stats last).2 }
        else p
      | none => p
    { p with lastStats := some stats, txTotal := stats.tx, rxTotal := stats.rx }
  | .null | .other _ => p

/-! ## Steps -/

inductive Action where
  /-- a click on 'Connect'; `usable` says whether the current profile has a host and a password -/
  | connect (usable : Bool)
  /-- the start that the `i`-th `connect` awaits has succeeded, or was rejected -/
  | started (i : ℕ) (ok : Bool)
  /-- a click on 'Disconnect' -/
  | disconnect
  /-- the stop that a `disconnect` awaits has succeeded, or was rejected -/
  | stopped (ok : Bool)
  /-- an interval fires, and `load` returns this -/
  | tick (id : ℕ) (loaded : TrafficStats.Loaded)
  | aboutToDisappear

def step (p : Page) : Action → Option Page
  | .connect usable =>
    if p.gone ∨ p.connected then none
    else some (if usable then { p with starting := p.starting ++ [.first] } else p)
  | .started i ok =>
    match p.starting[i]? with
    | none => none
    | some attempt =>
      let waiting := { p with starting := p.starting.eraseIdx i }
      if ok then some { waiting with connected := true }.startStatsPolling
      else
        match attempt with
        | .first => some { p with starting := p.starting.set i .second }
        | .second => some waiting
  | .disconnect => if p.gone ∨ !p.connected then none else some { p with stopping := p.stopping + 1 }
  -- the `finally` block, whether the stop was rejected or not
  | .stopped _ =>
    match p.stopping with
    | 0 => none
    | n + 1 => some { p with stopping := n, connected := false }.stopStatsPolling
  | .tick id loaded => if id ∈ p.timers then some (p.onLoaded loaded) else none
  | .aboutToDisappear => if p.gone then none else some { p with gone := true }.stopStatsPolling

/-! ## Invariant -/

structure Inv (p : Page) : Prop where
  /-- no interval runs that the page does not know -/
  timers : p.timers = p.statsTimer.toList
  polling : p.statsTimer.isSome = true → p.connected = true
  connected : p.gone = false → p.connected = true → p.statsTimer.isSome = true

theorem inv_initial : Inv .initial := ⟨rfl, nofun, nofun⟩

/-- what a method leaves alone -/
structure Keeps (p q : Page) : Prop where
  connected : q.connected = p.connected
  gone : q.gone = p.gone
  starting : q.starting = p.starting
  stopping : q.stopping = p.stopping

theorem stopStatsPolling_keeps (p : Page) : Keeps p p.stopStatsPolling := by
  unfold Page.stopStatsPolling
  cases p.statsTimer <;> exact ⟨rfl, rfl, rfl, rfl⟩

theorem stopStatsPolling_timers {p : Page} (h : p.timers = p.statsTimer.toList) :
    p.stopStatsPolling.timers = [] ∧ p.stopStatsPolling.statsTimer = none := by
  unfold Page.stopStatsPolling
  cases ht : p.statsTimer with
  | none =>
    rw [ht] at h
    exact ⟨h, ht⟩
  | some id =>
    rw [ht] at h
    simp [h]

theorem startStatsPolling_timers {p : Page} (h : p.timers = p.statsTimer.toList) :
    p.startStatsPolling.timers = p.startStatsPolling.statsTimer.toList ∧
      p.startStatsPolling.statsTimer.isSome = true := by
  refine ⟨?_, rfl⟩
  simp only [Page.startStatsPolling, (stopStatsPolling_timers h).1, Option.toList_some]

theorem startStatsPolling_keeps (p : Page) : Keeps p p.startStatsPolling := by
  obtain ⟨h1, h2, h3, h4⟩ := stopStatsPolling_keeps p
  exact ⟨h1, h2, h3, h4⟩

/-- a callback changes only what is shown -/
theorem onLoaded_keeps (p : Page) (loaded : TrafficStats.Loaded) : Keeps p (p.onLoaded loaded) ∧
    (p.onLoaded loaded).timers = p.timers ∧ (p.onLoaded loaded).statsTimer = p.statsTimer := by
  cases loaded with
  | null | other v => exact ⟨⟨rfl, rfl, rfl, rfl⟩, rfl, rfl⟩
  | stats stats =>
    unfold Page.onLoaded
    cases p.lastStats with
    | none => exact ⟨⟨rfl, rfl, rfl, rfl⟩, rfl, rfl⟩
    | some last =>
      dsimp only
      split_ifs <;> exact ⟨⟨rfl, rfl, rfl, rfl⟩, rfl, rfl⟩

/-- polling has stopped -/
theorem inv_stopped {p : Page} (h : p.timers = p.statsTimer.toList) (hoff : p.gone = true ∨ p.connected = false) :
    Inv p.stopStatsPolling := by
  obtain ⟨hnil, hnone⟩ := stopStatsPolling_timers h
  have hk := stopStatsPolling_keeps p
  refine ⟨by rw [hnil, hnone]; rfl, by rw [hnone]; exact nofun, fun hg hc => ?_⟩
  rw [hk.gone] at hg
  rw [hk.connected] at hc
  rcases hoff with hoff | hoff
  · rw [hoff] at hg
    cases hg
  · rw [hoff] at hc
    cases hc

/-- polling has started -/
theorem inv_started {p : Page} (h : p.timers = p.statsTimer.toList) (hc : p.connected = true) :
    Inv p.startStatsPolling := by
  obtain ⟨htimers, hsome⟩ := startStatsPolling_timers h
  exact ⟨htimers, fun _ => (startStatsPolling_keeps p).connected.trans hc, fun _ _ => hsome⟩

/-- **Step lemma.** -/
theorem inv_step (p : Page) (a : Action) (q : Page) (hi : Inv p) (h : step p a = some q) : Inv q := by
  cases a with
  | connect usable =>
    simp only [step, Option.ite_none_left_eq_some, Option.some.injEq] at h
    obtain ⟨-, rfl⟩ := h
    split_ifs
    · exact ⟨hi.timers, hi.polling, hi.connected⟩
    · exact hi
  | started i ok =>
    simp only [step] at h
    split at h
    · cases h
    · split_ifs at h
      · cases h
        exact inv_started hi.timers rfl
      · split at h <;> cases h <;> exact ⟨hi.timers, hi.polling, hi.connected⟩
  | disconnect =>
    simp only [step, Option.ite_none_left_eq_some, Option.some.injEq] at h
    obtain ⟨-, rfl⟩ := h
    exact ⟨hi.timers, hi.polling, hi.connected⟩
  | stopped ok =>
    simp only [step] at h
    split at h
    · cases h
    · cases h
      exact inv_stopped hi.timers (Or.inr rfl)
  | tick id loaded =>
    simp only [step, Option.ite_none_right_eq_some, Option.some.injEq] at h
    obtain ⟨-, rfl⟩ := h
    obtain ⟨hk, htimers, hstats⟩ := onLoaded_keeps p loaded
    refine ⟨by rw [htimers, hstats, hi.timers], ?_, ?_⟩
    · rw [hstats, hk.connected]
      exact hi.polling
    · rw [hstats, hk.gone, hk.connected]
      exact hi.connected
  | aboutToDisappear =>
    simp only [step, Option.ite_none_left_eq_some, Option.some.injEq] at h
    obtain ⟨-, rfl⟩ := h
    exact inv_stopped hi.timers (Or.inl rfl)

/-! ## Leaving the page -/

/-- nothing is left of the page -/
structure Over (p : Page) : Prop where
  gone : p.gone = true
  starting : p.starting = []
  timers : p.timers = []

theorem over_step (p : Page) (a : Action) (q : Page) (ho : Over p) (h : step p a = some q) : Over q := by
  cases a with
  | connect usable | disconnect | aboutToDisappear =>
    -- a page that has gone takes no clicks
    simp [step, ho.gone] at h
  | started i ok => simp [step, ho.starting] at h
  | tick id loaded => simp [step, ho.timers] at h
  | stopped ok =>
    simp only [step] at h
    split at h
    · cases h
    · cases h
      have hk := stopStatsPolling_keeps { p with stopping := ‹ℕ›, connected := false }
      refine ⟨hk.gone.trans ho.gone, hk.starting.trans ho.starting, ?_⟩
      unfold Page.stopStatsPolling
      split
      · simp only [ho.timers, List.erase_nil]
      · exact ho.timers

theorem over_disappeared {p q : Page} (hi : Inv p) (hs : p.starting = [])
    (h : step p .aboutToDisappear = some q) : Over q := by
  simp only [step, Option.ite_none_left_eq_some, Option.some.injEq] at h
  obtain ⟨-, rfl⟩ := h
  have hk := stopStatsPolling_keeps { p with gone := true }
  have htimers : ({ p with gone := true } : Page).timers = p.statsTimer.toList := hi.timers
  exact ⟨hk.gone, hk.starting.trans hs, (stopStatsPolling_timers htimers).1⟩

/-- a `connect` that waits when the page disappears may set an interval afterwards -/
theorem leaks {p : Page} (hg : p.gone = false) (hs : p.starting ≠ []) : ∃ q,
    Steps.run step p [.aboutToDisappear, .started 0 true] = some q ∧ q.timers ≠ [] := by
  obtain ⟨attempt, rest, hstarting⟩ := List.exists_cons_of_ne_nil hs
  have hk := stopStatsPolling_keeps { p with gone := true }
  have hstart : { p with gone := true }.stopStatsPolling.starting[0]? = some attempt := by
    rw [hk.starting, hstarting]
    rfl
  have hgone : step p .aboutToDisappear = some { p with gone := true }.stopStatsPolling := by simp [step, hg]
  have hstarted : ∃ q, step { p with gone := true }.stopStatsPolling (.started 0 true) = some q ∧ q.timers ≠ [] := by
    simp only [step, hstart, if_true]
    exact ⟨_, rfl, List.cons_ne_nil _ _⟩
  obtain ⟨q, hq, hne⟩ := hstarted
  refine ⟨q, ?_, hne⟩
  simp only [Steps.run, hgone, hq]

/-! ## Main result -/

/-- **One timer at most, and exactly while connected.** In every run the intervals that run are what the page knows of: one
while it is connected, none otherwise; and after the page has disappeared no interval ever runs again exactly if no
`connect` was waiting when it did. -/
theorem polling_exact (actions : List Action) (p : Page) (h : Steps.run step .initial actions = some p) :
    p.timers = p.statsTimer.toList ∧ (p.gone = false → (p.timers ≠ [] ↔ p.connected = true)) ∧
      (p.gone = false → ((∀ after q, Steps.run step p (.aboutToDisappear :: after) = some q → q.timers = []) ↔
        p.starting = [])) := by
  have hi : Inv p := Steps.run_inv' inv_step inv_initial h
  refine ⟨hi.timers, fun hg => ⟨fun hne => ?_, fun hc => ?_⟩, fun hg => ⟨fun hall => ?_, fun hs after q hrun => ?_⟩⟩
  · refine hi.polling ?_
    rw [hi.timers] at hne
    cases ht : p.statsTimer with
    | none =>
      rw [ht] at hne
      exact absurd rfl hne
    | some id => rfl
  · obtain ⟨id, hid⟩ := Option.isSome_iff_exists.1 (hi.connected hg hc)
    rw [hi.timers, hid]
    exact List.cons_ne_nil _ _
  · by_contra hs
    obtain ⟨q, hrun, hleft⟩ := leaks hg hs
    exact hleft (hall _ q hrun)
  · obtain ⟨p', hstep, hrest⟩ := Steps.run_cons hrun
    exact (Steps.run_inv' over_step (over_disappeared hi hs hstep) hrest).timers

/-- two clicks on 'Connect' before the extension has started, and a page that disappears between the two starts -/
def leavingWhileConnecting : List Action :=
  [.connect true, .connect true, .started 0 false, .started 1 true, .tick 0 .null]

/-- **A timer that nobody stops**: both hypotheses of the leak are met. -/
theorem polling_exact_leaving : ∃ p, Steps.run step .initial leavingWhileConnecting = some p ∧
    p.timers = [0] ∧ p.starting = [.second] ∧
    ¬ ∀ after q, Steps.run step p (.aboutToDisappear :: after) = some q → q.timers = [] := by
  have hfinal : (Steps.run step .initial leavingWhileConnecting).map (fun p => (p.timers, p.starting, p.gone)) =
      some ([0], [.second], false) := by decide +kernel
  obtain ⟨p, hp, heq⟩ := Option.map_eq_some_iff.1 hfinal
  simp only [Prod.mk.injEq] at heq
  obtain ⟨htimers, hstarting, hgone⟩ := heq
  refine ⟨p, hp, htimers, hstarting, fun hall => ?_⟩
  have hs := ((polling_exact leavingWhileConnecting p hp).2.2 hgone).1 hall
  rw [hstarting] at hs
  cases hs

end MainPage

end ShadowsocksOhos
