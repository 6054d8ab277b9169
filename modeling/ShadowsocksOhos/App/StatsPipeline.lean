/-
The way of the traffic counters through three parties: the core reports them (`StatReports`), the VPN extension saves a
sample in a file, and the main page, in another process, polls the file and shows it (`MainPage`). Reports of several
connections come in pieces and interleaved, the calls of the file system of the two processes come in any order and may
fail (`JsonFaults`), and both processes may die.
- `inv_step`: whatever is in the file, in a buffer or on the page comes from a report.
- `shown_reported`: the page shows the counters of one report, both of the same one, or zeros, and a report that gets
through undisturbed is shown.
-/
import ShadowsocksOhos.App.MainPage
import ShadowsocksOhos.App.Stringify
import ShadowsocksOhos.App.StatReports

namespace ShadowsocksOhos

namespace StatsPipeline

open JsonStore (FaultyAction faultyStep FaultyInv Given)

open TrafficStats (Loaded load)

/-! ## State -/

structure St where
  /-- the core, and the handler of the extension -/
  core : StatReports.St
  /-- the file `traffic_stats`, which the extension writes and the page reads -/
  disk : JsonStore.St
  page : MainPage.Page
  /-- what the page has loaded, the last one first -/
  loads : List Loaded

def St.initial : St := ⟨.initial, .initial none, .initial, []⟩

inductive Action where
  /-- an event of the endpoint; if a sample is saved, `ok` says whether the temporary file can be opened -/
  | event (e : StatReports.Event) (ok : Bool)
  /-- another call of the file system, or the death of a process -/
  | file (a : FaultyAction)
  /-- something else happens to the page -/
  | page (a : MainPage.Action)

/-! ## Steps -/

/-- a counter as a number of a document -/
def toValue : StatReports.JsNumber → JsValue
  | some q => .num (.finite q)
  | none => .num (.infinite false)

variable (stringify : JsValue → JsString)

/-- `TrafficStatsStore.save`: the text that is given to `JsonStore.write` -/
def saveText (sample : StatReports.JsNumber × StatReports.JsNumber) (now : ℤ) : JsString :=
  stringify (.obj [(js "tx", toValue sample.1), (js "rx", toValue sample.2), (js "timestamp", .num (.finite now))])

/-- the sample that the handler has saved last, if it was this event that made it do so -/
def newlySaved (before after : StatReports.Handler) : Option (StatReports.JsNumber × StatReports.JsNumber) :=
  (after.saved.drop before.saved.length).head?

/-- the callback of the timer goes on -/
def St.loaded (s : St) (l : Loaded) : St := { s with page := s.page.onLoaded l, loads := l :: s.loads }

/-- a call of the file system; when it ends a read, the page goes on with the text -/
def St.call (s : St) (a : FaultyAction) : Option St := do
  let disk ← faultyStep s.disk a
  let texts := (disk.results.take (disk.results.length - s.disk.results.length)).map JsonStore.Result.text
  some (texts.foldr (fun text s => s.loaded (load text)) { s with disk := disk })

/-- the extension has died, and the core with it -/
def restarted (core : StatReports.St) : StatReports.St :=
  { core with handler := { core.handler with statConnections := [], lastStatSave := 0 }, streams := fun _ => none }

def step (s : St) : Action → Option St
  | .event e ok =>
    -- the event loop of the extension does not take an event in the middle of a write
    match s.disk.writer with
    | .idle => do
      let core ← StatReports.step s.core e
      match e, newlySaved s.core.handler core.handler with
      | .message _ _ now, some sample =>
        let disk ← faultyStep s.disk (.write (saveText stringify sample now) ok)
        some { s with core := core, disk := disk }
      | _, _ => some { s with core := core }
    | _ => none
  | .file a =>
    match a with
    | .write _ _ => none
    -- a read begins when the interval fires
    | .statSync _ => if s.page.timers = [] then none else s.call a
    | .writerDies => (s.call a).map fun s => { s with core := restarted s.core }
    | .readerDies => (s.call a).map fun s => { s with page := .initial }
    | _ => s.call a
  | .page a =>
    -- nor does the page in the middle of a read
    match s.disk.reader, a with
    | .idle, .tick _ _ => none
    | .idle, a => (MainPage.step s.page a).map fun page => { s with page := page }
    | _, _ => none

/-! ## Invariant -/

/-- the range of `Date.now()` -/
def TimeValue (now : ℤ) : Prop := now.natAbs ≤ 8640000000000000

instance (now : ℤ) : Decidable (TimeValue now) := inferInstanceAs (Decidable (_ ≤ _))

/-- a sample with both counters of a report -/
def Genuine (core : StatReports.St) (stats : TrafficStats) : Prop :=
  ∃ r ∈ core.reports, ∃ now, TimeValue now ∧ stats = ⟨r.tx, r.rx, now⟩

/-- the text of such a sample -/
def SavedText (core : StatReports.St) (text : JsString) : Prop :=
  ∃ stats, Genuine core stats ∧ text = stringify stats.toJson

/-- what the page shows comes from reports -/
structure Shown (core : StatReports.St) (p : MainPage.Page) : Prop where
  last : ∀ stats, p.lastStats = some stats → Genuine core stats
  totals : (p.txTotal = 0 ∧ p.rxTotal = 0) ∨ ∃ r ∈ core.reports, p.txTotal = r.tx ∧ p.rxTotal = r.rx
  txRate : ∃ n : ℕ, p.txRate = some (n : ℚ)
  rxRate : ∃ n : ℕ, p.rxRate = some (n : ℚ)

/-- nothing, or a sample of a report -/
def LoadedGenuine (core : StatReports.St) (l : Loaded) : Prop := l = .null ∨ ∃ stats, l = .stats stats ∧ Genuine core stats

structure Inv (s : St) : Prop where
  known : StatReports.Known s.core
  disk : FaultyInv s.disk
  given : Given (SavedText stringify s.core) s.disk
  loads : ∀ l ∈ s.loads, LoadedGenuine s.core l
  shown : Shown s.core s.page

theorem inv_initial : Inv stringify .initial where
  known := StatReports.known_initial
  disk := JsonStore.faultyInv_initial none
  given := by
    have hnone : ∀ c, none = some c → SavedText stringify .initial c := nofun
    exact JsonStore.given_initial hnone
  loads := nofun
  shown := ⟨nofun, Or.inl ⟨rfl, rfl⟩, ⟨0, rfl⟩, 0, rfl⟩

/-! ### More reports -/

variable {stringify}

theorem Genuine.mono {core core' : StatReports.St} (h : core.reports ⊆ core'.reports) {stats : TrafficStats}
    (hg : Genuine core stats) : Genuine core' stats := by
  obtain ⟨r, hr, now, hnow, rfl⟩ := hg
  exact ⟨r, h hr, now, hnow, rfl⟩

theorem SavedText.mono {core core' : StatReports.St} (h : core.reports ⊆ core'.reports) {text : JsString}
    (hs : SavedText stringify core text) : SavedText stringify core' text := by
  obtain ⟨stats, hg, rfl⟩ := hs
  exact ⟨stats, hg.mono h, rfl⟩

theorem Shown.mono {core core' : StatReports.St} (h : core.reports ⊆ core'.reports) {p : MainPage.Page}
    (hs : Shown core p) : Shown core' p := by
  refine ⟨fun stats hl => (hs.last stats hl).mono h, ?_, hs.txRate, hs.rxRate⟩
  rcases hs.totals with hzero | ⟨r, hr, htotals⟩
  · exact Or.inl hzero
  · exact Or.inr ⟨r, h hr, htotals⟩

theorem LoadedGenuine.mono {core core' : StatReports.St} (h : core.reports ⊆ core'.reports) {l : Loaded}
    (hl : LoadedGenuine core l) : LoadedGenuine core' l := by
  rcases hl with hnull | ⟨stats, hstats, hg⟩
  · exact Or.inl hnull
  · exact Or.inr ⟨stats, hstats, hg.mono h⟩

/-! ### The file -/

theorem doubles_genuine (core : StatReports.St) {stats : TrafficStats} (h : Genuine core stats) : stats.Doubles := by
  obtain ⟨r, -, now, hnow, rfl⟩ := h
  have hcounter : ∀ {n : ℕ}, n < 2 ^ 53 → Binary64.IsDouble (n : ℚ) := fun hn => Binary64.isDouble_int (n := _) hn
  have htime : now.natAbs < 2 ^ 53 := lt_of_le_of_lt hnow (by decide)
  exact ⟨hcounter r.tx_lt, hcounter r.rx_lt, Binary64.isDouble_int htime⟩

theorem document_savedText (hprints : JsonParse.Prints stringify) {core : StatReports.St} {text : JsString}
    (h : SavedText stringify core text) : JsonParse.Document text := by
  obtain ⟨stats, hg, rfl⟩ := h
  exact (hprints _ (TrafficStats.plain_toJson (doubles_genuine core hg)) rfl).1

/-- what a read returns is a sample of a report, or refused -/
theorem loadedGenuine (hprints : JsonParse.Prints stringify) {core : StatReports.St} {disk : JsonStore.St}
    (hi : FaultyInv disk) (hg : Given (SavedText stringify core) disk) :
    ∀ r ∈ disk.results, LoadedGenuine core (load r.text) := by
  intro r hr
  have hdocuments : Given JsonParse.Document disk := hg.mono fun text => document_savedText hprints
  rcases JsonStore.read_whole hi hdocuments r hr with hplace | hnone
  · obtain ⟨stats, hgen, htext⟩ := hg.results r hr _ hplace
    right
    exact ⟨stats, htext ▸ TrafficStats.load_stringify hprints (doubles_genuine core hgen), hgen⟩
  · left
    exact TrafficStats.load_refused hnone

/-! ### The page -/

/-- the rates between two samples of reports -/
theorem rates_genuine {core : StatReports.St} {stats last : TrafficStats} (hs : Genuine core stats) (hl : Genuine core last)
    (hlt : last.timestamp < stats.timestamp) :
    (∃ n : ℕ, (MainPage.rates stats last).1 = some (n : ℚ)) ∧ ∃ n : ℕ, (MainPage.rates stats last).2 = some (n : ℚ) := by
  obtain ⟨r, -, now, hnow, rfl⟩ := hs
  obtain ⟨r', -, now', hnow', rfl⟩ := hl
  unfold TimeValue at hnow hnow'
  have hcast : (now' : ℚ) < now := hlt
  have hlt' : now' < now := by exact_mod_cast hcast
  have hlow : (1 : ℚ) ≤ now - now' := by
    have : 1 ≤ now - now' := by omega
    exact_mod_cast this
  have hhigh : (now : ℚ) - now' < 2 ^ 60 := by
    have : now - now' < 2 ^ 60 := by omega
    exact_mod_cast this
  obtain ⟨d, hd, hdlow⟩ := TrafficStats.deltaSec_some ⟨r.tx, r.rx, now⟩ ⟨r'.tx, r'.rx, now'⟩ hlow hhigh
  have hcounters : ∀ {a b : ℕ}, a < 2 ^ 53 → b < 2 ^ 53 → |(a : ℚ) - b| < 2 ^ 64 := by
    intro a b ha hb
    have h1 : (a : ℚ) < 2 ^ 53 := by exact_mod_cast ha
    have h2 : (b : ℚ) < 2 ^ 53 := by exact_mod_cast hb
    have h3 : (0 : ℚ) ≤ a := Nat.cast_nonneg a
    have h4 : (0 : ℚ) ≤ b := Nat.cast_nonneg b
    rw [abs_lt]
    constructor <;> linarith
  unfold MainPage.rates
  rw [hd]
  exact ⟨TrafficStats.rate_some (hcounters r.tx_lt r'.tx_lt) hdlow, TrafficStats.rate_some (hcounters r.rx_lt r'.rx_lt) hdlow⟩

theorem shown_onLoaded {core : StatReports.St} {p : MainPage.Page} (hs : Shown core p) {l : Loaded}
    (hl : LoadedGenuine core l) : Shown core (p.onLoaded l) := by
  rcases hl with rfl | ⟨stats, rfl, hg⟩
  · exact hs
  have htotals : ∃ r ∈ core.reports, stats.tx = r.tx ∧ stats.rx = r.rx := by
    obtain ⟨r, hr, now, -, rfl⟩ := hg
    exact ⟨r, hr, rfl, rfl⟩
  have hlast : ∀ x, some stats = some x → Genuine core x := by
    rintro _ ⟨⟩
    exact hg
  unfold MainPage.Page.onLoaded
  cases hcase : p.lastStats with
  | none => exact ⟨hlast, Or.inr htotals, hs.txRate, hs.rxRate⟩
  | some last =>
    dsimp only
    split_ifs with hlt
    · obtain ⟨htx, hrx⟩ := rates_genuine hg (hs.last last hcase) hlt
      exact ⟨hlast, Or.inr htotals, htx, hrx⟩
    · exact ⟨hlast, Or.inr htotals, hs.txRate, hs.rxRate⟩

theorem shown_stop {core : StatReports.St} {p : MainPage.Page} (hs : Shown core p) : Shown core p.stopStatsPolling := by
  unfold MainPage.Page.stopStatsPolling
  split <;> exact ⟨hs.last, hs.totals, hs.txRate, hs.rxRate⟩

/-- polling starts from zeros -/
theorem shown_start {core : StatReports.St} (p : MainPage.Page) : Shown core p.startStatsPolling :=
  ⟨nofun, Or.inl ⟨rfl, rfl⟩, ⟨0, rfl⟩, 0, rfl⟩

/-- clicks, and what comes of them -/
theorem shown_step {core : StatReports.St} {p q : MainPage.Page} {a : MainPage.Action} (hs : Shown core p)
    (ha : ∀ id l, a ≠ .tick id l) (h : MainPage.step p a = some q) : Shown core q := by
  have hsame : ∀ {q : MainPage.Page}, q.lastStats = p.lastStats → q.txTotal = p.txTotal → q.rxTotal = p.rxTotal →
      q.txRate = p.txRate → q.rxRate = p.rxRate → Shown core q := by
    intro q h1 h2 h3 h4 h5
    exact ⟨h1 ▸ hs.last, by rw [h2, h3]; exact hs.totals, h4 ▸ hs.txRate, h5 ▸ hs.rxRate⟩
  cases a with
  | connect usable =>
    simp only [MainPage.step, Option.ite_none_left_eq_some, Option.some.injEq] at h
    obtain ⟨-, rfl⟩ := h
    split_ifs <;> exact hsame rfl rfl rfl rfl rfl
  | started i ok =>
    simp only [MainPage.step] at h
    split at h
    · cases h
    · split_ifs at h
      · cases h
        exact shown_start _
      · split at h <;> cases h <;> exact hsame rfl rfl rfl rfl rfl
  | disconnect =>
    simp only [MainPage.step, Option.ite_none_left_eq_some, Option.some.injEq] at h
    obtain ⟨-, rfl⟩ := h
    exact hsame rfl rfl rfl rfl rfl
  | stopped ok =>
    simp only [MainPage.step] at h
    split at h
    · cases h
    · cases h
      exact shown_stop (hsame rfl rfl rfl rfl rfl)
  | tick id l => exact absurd rfl (ha id l)
  | aboutToDisappear =>
    simp only [MainPage.step, Option.ite_none_left_eq_some, Option.some.injEq] at h
    obtain ⟨-, rfl⟩ := h
    exact shown_stop (hsame rfl rfl rfl rfl rfl)

/-! ### Steps -/

/-- a call of the file system ends one read at most -/
theorem call_cases {s s' : St} {a : FaultyAction} (h : s.call a = some s') : ∃ disk, faultyStep s.disk a = some disk ∧
    (disk.results = s.disk.results ∧ s' = { s with disk := disk } ∨
      ∃ r, disk.results = r :: s.disk.results ∧ s' = { s with disk := disk }.loaded (load r.text)) := by
  obtain ⟨disk, hdisk, hs'⟩ := Option.bind_eq_some_iff.1 h
  refine ⟨disk, hdisk, ?_⟩
  rcases JsonStore.faultyStep_results hdisk with hsame | ⟨r, hr, -⟩
  · left
    rw [hsame, Nat.sub_self, List.take_zero] at hs'
    exact ⟨hsame, (Option.some.inj hs').symm⟩
  · right
    rw [hr, List.length_cons, Nat.add_sub_cancel_left] at hs'
    exact ⟨r, hr, (Option.some.inj hs').symm⟩

theorem call_inv (hprints : JsonParse.Prints stringify) {s s' : St} {a : FaultyAction} (hi : Inv stringify s)
    (ha : a.Gives (SavedText stringify s.core)) (h : s.call a = some s') : Inv stringify s' := by
  obtain ⟨disk, hdisk, hcases⟩ := call_cases h
  have hfaulty := JsonStore.faulty_inv _ _ _ hi.disk hdisk
  have hgiven := JsonStore.given_step _ _ _ hi.given ha hdisk
  rcases hcases with ⟨-, rfl⟩ | ⟨r, hr, rfl⟩
  · exact ⟨hi.known, hfaulty, hgiven, hi.loads, hi.shown⟩
  · have hl : LoadedGenuine s.core (load r.text) :=
      loadedGenuine hprints hfaulty hgiven r (hr ▸ List.mem_cons_self)
    exact ⟨hi.known, hfaulty, hgiven, List.forall_mem_cons.2 ⟨hl, hi.loads⟩, shown_onLoaded hi.shown hl⟩

/-- the reports stay -/
theorem event_reports {core core' : StatReports.St} {e : StatReports.Event} (h : StatReports.step core e = some core') :
    core.reports ⊆ core'.reports := by
  cases e with
  | connect conn report =>
    rw [StatReports.step_connect h]
    exact List.subset_append_left _ _
  | message conn n now =>
    obtain ⟨t, -, -, rfl⟩ := StatReports.step_message h
    exact List.Subset.refl _
  | ends conn =>
    rw [StatReports.step_ends h]
    exact List.Subset.refl _

/-- with more reports everything else still holds -/
theorem Inv.reports {s : St} (hi : Inv stringify s) {core : StatReports.St} (hk : StatReports.Known core)
    (hsub : s.core.reports ⊆ core.reports) : Inv stringify { s with core := core } :=
  ⟨hk, hi.disk, hi.given.mono fun _ => SavedText.mono hsub, fun l hl => (hi.loads l hl).mono hsub, hi.shown.mono hsub⟩

/-- a message has a sample saved when it is a whole report and the throttle lets it through -/
theorem newlySaved_message (h : StatReports.Handler) (t : StatReports.Stream) {n : ℕ} (hlen : t.arrived + n ≤ 16) (now : ℤ) :
    newlySaved h (h.onMessage (t.next n) now) = if n = 16 ∧ h.allows now then some t.report.sample else none := by
  rw [StatReports.onMessage_next _ _ hlen]
  unfold newlySaved
  split_ifs
  · rw [List.drop_left]
    rfl
  · rw [List.drop_length]
    rfl

/-- what the handler saves is the text of a report -/
theorem saved_genuine {core core' : StatReports.St} (hk : StatReports.Known core) {conn n : ℕ} {now : ℤ}
    (hnow : TimeValue now) (h : StatReports.step core (.message conn n now) = some core')
    {sample : StatReports.JsNumber × StatReports.JsNumber} (hs : newlySaved core.handler core'.handler = some sample) :
    SavedText stringify core' (saveText stringify sample now) := by
  obtain ⟨t, ht, hlen, rfl⟩ := StatReports.step_message h
  simp only [newlySaved_message core.handler t hlen now, Option.ite_none_right_eq_some, Option.some.injEq] at hs
  obtain ⟨-, rfl⟩ := hs
  exact ⟨⟨t.report.tx, t.report.rx, now⟩, ⟨t.report, hk conn t ht, now, hnow, rfl⟩, rfl⟩

/-- the clock that the handler reads is right -/
def InTime : Action → Prop
  | .event (.message _ _ now) _ => TimeValue now
  | _ => True

theorem event_inv {s s' : St} {e : StatReports.Event} {ok : Bool} (hi : Inv stringify s) (ha : InTime (.event e ok))
    (h : step stringify s (.event e ok) = some s') : Inv stringify s' := by
  simp only [step] at h
  split at h
  · obtain ⟨core, hcore, h⟩ := Option.bind_eq_some_iff.1 h
    have hinv := hi.reports (StatReports.known_step _ _ _ hi.known hcore) (event_reports hcore)
    cases e with
    | connect conn report | ends conn =>
      cases h
      exact hinv
    | message conn n now =>
      cases hsaved : newlySaved s.core.handler core.handler with
      | none =>
        rw [hsaved] at h
        cases h
        exact hinv
      | some sample =>
        rw [hsaved] at h
        obtain ⟨disk, hdisk, h⟩ := Option.bind_eq_some_iff.1 h
        cases h
        have hgives : (FaultyAction.write (saveText stringify sample now) ok).Gives (SavedText stringify core) :=
          saved_genuine hi.known ha hcore hsaved
        exact ⟨hinv.known, JsonStore.faulty_inv _ _ _ hi.disk hdisk, JsonStore.given_step _ _ _ hinv.given hgives hdisk,
          hinv.loads, hinv.shown⟩
  · cases h

theorem restarted_inv {s : St} (hi : Inv stringify s) : Inv stringify { s with core := restarted s.core } := by
  have hk : StatReports.Known (restarted s.core) := fun _ _ h => by cases h
  exact hi.reports hk (List.Subset.refl _)

theorem file_inv (hprints : JsonParse.Prints stringify) {s s' : St} {a : FaultyAction} (hi : Inv stringify s)
    (h : step stringify s (.file a) = some s') : Inv stringify s' := by
  cases a with
  | write content ok => cases h
  | statSync ok =>
    simp only [step, Option.ite_none_left_eq_some] at h
    exact call_inv hprints hi (a := .statSync ok) trivial h.2
  | writerDies =>
    simp only [step, Option.map_eq_some_iff] at h
    obtain ⟨t, ht, rfl⟩ := h
    exact restarted_inv (call_inv hprints hi (a := .writerDies) trivial ht)
  | readerDies =>
    simp only [step, Option.map_eq_some_iff] at h
    obtain ⟨t, ht, rfl⟩ := h
    have hinv := call_inv hprints hi (a := .readerDies) trivial ht
    exact ⟨hinv.known, hinv.disk, hinv.given, hinv.loads, nofun, Or.inl ⟨rfl, rfl⟩, ⟨0, rfl⟩, 0, rfl⟩
  | writeSync _ _ | closeSync _ | renameSync _ | remove _ | openSync _ | readSync _ _ | closeRead _ =>
    exact call_inv hprints hi (by exact trivial) h

/-- **Step lemma.** -/
theorem inv_step (hprints : JsonParse.Prints stringify) (s : St) (a : Action) (s' : St) (hi : Inv stringify s)
    (ha : InTime a) (h : step stringify s a = some s') : Inv stringify s' := by
  cases a with
  | event e ok => exact event_inv hi ha h
  | file a => exact file_inv hprints hi h
  | page a =>
    simp only [step] at h
    split at h
    · cases h
    · rename_i htick
      obtain ⟨page, hpage, rfl⟩ := Option.map_eq_some_iff.1 h
      exact ⟨hi.known, hi.disk, hi.given, hi.loads, shown_step hi.shown htick hpage⟩
    · cases h

/-! ## A report that gets through -/

/-- a call of the file system that a write or a read makes -/
def Proceeds : FaultyAction → Prop
  | .writeSync _ _ | .closeSync _ | .renameSync _ | .statSync _ | .openSync _ | .readSync _ _ | .closeRead _ => True
  | .write _ _ | .remove _ | .writerDies | .readerDies => False

/-- while an interval runs, the calls are made as in `JsonFaults` -/
theorem step_file {s : St} {a : FaultyAction} (ha : Proceeds a) (ht : s.page.timers ≠ []) :
    step stringify s (.file a) = s.call a := by
  cases a with
  | statSync ok => exact if_neg ht
  | writeSync _ _ | closeSync _ | renameSync _ | openSync _ | readSync _ _ | closeRead _ => rfl
  | write _ _ | remove _ | writerDies | readerDies => exact absurd ha id

/-- the page takes the texts that have been read, one after another -/
theorem files_run {as : List FaultyAction} (ha : ∀ a ∈ as, Proceeds a) : ∀ {s : St} {disk : JsonStore.St},
    s.page.timers ≠ [] → Steps.run faultyStep s.disk as = some disk →
    ∃ s' texts, Steps.run (step stringify) s (as.map .file) = some s' ∧
      disk.results.map JsonStore.Result.text = texts ++ s.disk.results.map JsonStore.Result.text ∧
      s'.page = texts.foldr (fun text page => page.onLoaded (load text)) s.page := by
  induction as with
  | nil =>
    intro s disk _ h
    cases h
    exact ⟨s, [], rfl, rfl, rfl⟩
  | cons a as ih =>
    intro s disk ht h
    obtain ⟨ha, hrest⟩ := List.forall_mem_cons.1 ha
    obtain ⟨disk1, hdisk1, hrun⟩ := Steps.run_cons h
    have hcall : s.call a = some _ := Option.bind_eq_some_iff.2 ⟨disk1, hdisk1, rfl⟩
    obtain ⟨_, hdisk, hcases⟩ := call_cases hcall
    obtain rfl := Option.some.inj (hdisk1.symm.trans hdisk)
    rcases hcases with ⟨hsame, heq⟩ | ⟨r, hr, heq⟩
    · obtain ⟨s', texts, hs', htexts, hpage⟩ := ih hrest (s := { s with disk := disk1 }) ht hrun
      refine ⟨s', texts, ?_, by rw [htexts, hsame], hpage⟩
      rw [List.map_cons, Steps.run, step_file ha ht, hcall, heq]
      exact hs'
    · have ht' : ({ s with disk := disk1 }.loaded (load r.text)).page.timers ≠ [] := by
        unfold St.loaded
        rw [(MainPage.onLoaded_keeps s.page (load r.text)).2.1]
        exact ht
      obtain ⟨s', texts, hs', htexts, hpage⟩ := ih hrest ht' hrun
      refine ⟨s', texts ++ [r.text], ?_, ?_, ?_⟩
      · rw [List.map_cons, Steps.run, step_file ha ht, hcall, heq]
        exact hs'
      · rw [htexts]
        simp only [St.loaded, hr, List.map_cons, List.append_assoc, List.singleton_append]
      · rw [hpage, List.foldr_append]
        rfl

variable (stringify) in
/-- a whole report arrives, is saved, and is read by the next poll, with nothing in between -/
def throughAll (conn : ℕ) (report : StatReports.Report) (now : ℤ) : List Action :=
  .event (.message conn 16 now) true ::
    (JsonStore.writeAndRead (saveText stringify report.sample now)).tail.map .file

/-- nothing keeps the next report of a connection from being saved and shown -/
structure Ready (s : St) (conn : ℕ) (report : StatReports.Report) (now : ℤ) : Prop where
  writer : s.disk.writer = .idle
  reader : s.disk.reader = .idle
  polling : s.page.timers ≠ []
  stream : s.core.streams conn = some ⟨report, 0⟩
  due : s.core.handler.allows now = true

/-- **It is shown.** -/
theorem throughAll_shown (hprints : JsonParse.Prints stringify) {s : St} (hi : Inv stringify s) {conn : ℕ}
    {report : StatReports.Report} {now : ℤ} (hnow : TimeValue now) (hr : Ready s conn report now) :
    ∃ s', Steps.run (step stringify) s (throughAll stringify conn report now) = some s' ∧
      s'.page.txTotal = report.tx ∧ s'.page.rxTotal = report.rx := by
  have hlen : (⟨report, 0⟩ : StatReports.Stream).arrived + 16 ≤ 16 := le_rfl
  obtain ⟨core, hcore, hhandler⟩ : ∃ core, StatReports.step s.core (.message conn 16 now) = some core ∧
      core.handler = s.core.handler.onMessage ((⟨report, 0⟩ : StatReports.Stream).next 16) now := by
    simp only [StatReports.step, hr.stream, Nat.zero_add, lt_irrefl, if_false]
    exact ⟨_, rfl, rfl⟩
  have hsaved : newlySaved s.core.handler core.handler = some report.sample := by
    rw [hhandler, newlySaved_message _ _ hlen, if_pos ⟨rfl, hr.due⟩]
  obtain ⟨disk, hrun, hresults⟩ :=
    JsonStore.writeAndRead_runs hi.disk hr.writer hr.reader (saveText stringify report.sample now)
  -- the first call belongs to the event
  obtain ⟨disk1, hwrite, hrest⟩ := Steps.run_cons hrun
  have hevent : step stringify s (.event (.message conn 16 now) true) = some { s with core := core, disk := disk1 } := by
    simp only [step, hr.writer, hcore, Option.bind_eq_bind, Option.bind_some, hsaved, hwrite]
  have hsame : disk1.results = s.disk.results := by
    simp only [faultyStep, hr.writer, if_true, Option.some.injEq] at hwrite
    rw [← hwrite]
  have hproceeds : ∀ a ∈ (JsonStore.writeAndRead (saveText stringify report.sample now)).tail, Proceeds a := by
    simp only [JsonStore.writeAndRead, List.tail_cons, List.forall_mem_cons, Proceeds, List.not_mem_nil, true_and]
    exact fun _ h => h.elim
  obtain ⟨s', texts, hs', htexts, hpage⟩ := files_run hproceeds (s := { s with core := core, disk := disk1 }) hr.polling hrest
  have htext : texts = [saveText stringify report.sample now] := by
    rw [hresults, hsame, List.map_cons, ← List.singleton_append] at htexts
    exact (List.append_cancel_right htexts).symm
  have hdoubles : (⟨report.tx, report.rx, now⟩ : TrafficStats).Doubles :=
    doubles_genuine { s.core with reports := [report] } ⟨report, List.mem_cons_self, now, hnow, rfl⟩
  have hload : load (saveText stringify report.sample now) = .stats ⟨report.tx, report.rx, now⟩ :=
    TrafficStats.load_stringify hprints hdoubles
  refine ⟨s', ?_, ?_⟩
  · simp only [throughAll, Steps.run, hevent]
    exact hs'
  · rw [hpage, htext, List.foldr_cons, List.foldr_nil, hload]
    exact ⟨rfl, rfl⟩

/-! ## Main result -/

/-- **What the page shows was reported.** In every run, whatever calls fail and whichever process dies: a load gives nothing
or a sample with both counters of one report; the totals that are shown are zeros or both counters of one report; and the
rates are natural numbers. And a report that is complete in one message when a sample is due is shown, if its save and the
next poll are not disturbed. -/
theorem shown_reported (actions : List Action) (s : St)
    (h : Steps.run (step Stringify.stringify) .initial actions = some s) (htime : ∀ a ∈ actions, InTime a) :
    (∀ l ∈ s.loads, l = .null ∨ ∃ r ∈ s.core.reports, ∃ now : ℤ, l = .stats ⟨r.tx, r.rx, now⟩) ∧
      (s.page.txTotal = 0 ∧ s.page.rxTotal = 0 ∨
        ∃ r ∈ s.core.reports, s.page.txTotal = r.tx ∧ s.page.rxTotal = r.rx) ∧
      (∃ tx rx : ℕ, s.page.txRate = some (tx : ℚ) ∧ s.page.rxRate = some (rx : ℚ)) ∧
      ∀ conn report now, TimeValue now → Ready s conn report now →
        ∃ s', Steps.run (step Stringify.stringify) s (throughAll Stringify.stringify conn report now) = some s' ∧
          s'.page.txTotal = report.tx ∧ s'.page.rxTotal = report.rx := by
  have hi : Inv Stringify.stringify s :=
    Steps.run_inv (inv_step Stringify.prints_stringify) (inv_initial _) (Steps.along_of_forall htime) h
  refine ⟨fun l hl => ?_, hi.shown.totals, ?_, fun conn report now hnow hr =>
    throughAll_shown Stringify.prints_stringify hi hnow hr⟩
  · rcases hi.loads l hl with hnull | ⟨stats, rfl, r, hr, now, -, rfl⟩
    · exact Or.inl hnull
    · exact Or.inr ⟨r, hr, now, rfl⟩
  · obtain ⟨tx, htx⟩ := hi.shown.txRate
    obtain ⟨rx, hrx⟩ := hi.shown.rxRate
    exact ⟨tx, rx, htx, hrx⟩

def firstReport : StatReports.Report := ⟨1000, 3000, by decide, by decide⟩

def secondReport : StatReports.Report := ⟨4000, 3500, by decide, by decide⟩

/-- one report gets through; the sample of the next one is stored in part, and moved into place in the middle of a read -/
def twoReports : List Action :=
  [.page (.connect true), .page (.started 0 true), .event (.connect 0 firstReport) true] ++
    throughAll Stringify.stringify 0 firstReport 2000 ++
    [.event (.connect 1 secondReport) true, .file (.statSync true), .event (.message 1 16 4000) true,
      .file (.writeSync 20 true), .file (.closeSync true), .file (.renameSync true), .file (.openSync true),
      .file (.readSync 100 true), .file (.closeRead true)]

theorem shown_reported_two : ∃ s, Steps.run (step Stringify.stringify) .initial twoReports = some s ∧ s.loads.length = 2 ∧
    s.page.txTotal = 1000 ∧ (s.page.txTotal = 0 ∧ s.page.rxTotal = 0 ∨
      ∃ r ∈ s.core.reports, s.page.txTotal = r.tx ∧ s.page.rxTotal = r.rx) := by
  have hfinal : (Steps.run (step Stringify.stringify) .initial twoReports).map (fun s => (s.loads.length, s.page.txTotal)) =
      some (2, 1000) := by decide +kernel
  obtain ⟨s, hs, heq⟩ := Option.map_eq_some_iff.1 hfinal
  simp only [Prod.mk.injEq] at heq
  refine ⟨s, hs, heq.1, heq.2, (shown_reported twoReports s hs ?_).2.1⟩
  have h2000 : TimeValue 2000 := by decide
  have h4000 : TimeValue 4000 := by decide
  simp only [twoReports, throughAll, JsonStore.writeAndRead, List.tail_cons, List.map_cons, List.map_nil, List.cons_append,
    List.nil_append, List.forall_mem_cons, InTime, h2000, h4000, List.not_mem_nil, true_and]
  exact fun _ h => h.elim

end StatsPipeline

end ShadowsocksOhos
