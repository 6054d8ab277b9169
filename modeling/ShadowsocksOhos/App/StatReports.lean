/-
The traffic reports of the core, as the VPN extension takes them (`SsVpnExtensionAbility.ets`, `onStatConnection`). Each
report is a connection with sixteen bytes on it, which come in messages of any sizes; messages of all open connections
come interleaved. The handler looks at each message for itself.

The actions are the events of the endpoint. The state is what the handler keeps, with the connections as they stand on
the other side; `due` is what should have been saved.

- `counter_le64`: sixteen bytes give both counters, exactly.
- `faithful_step`: the one step that goes wrong is the end of a report in pieces, when a save is due.
- `faithful_iff`: runs.
- `lost`: a report in two messages.
-/
import ShadowsocksOhos.Core.Binary64
import ShadowsocksOhos.Core.Steps

namespace ShadowsocksOhos

namespace StatReports

/-! ## Counters -/

/-- a number of the language, `none` for an infinite one -/
abbrev JsNumber := Option ℚ

/-- `getUint32(offset, true)` of a view that is long enough -/
def getUint32 (bytes : List UInt8) (offset : ℕ) : ℕ :=
  (bytes.getD offset 0).toNat + 256 * (bytes.getD (offset + 1) 0).toNat + 65536 * (bytes.getD (offset + 2) 0).toNat +
    16777216 * (bytes.getD (offset + 3) 0).toNat

/-- `view.getUint32(offset, true) + view.getUint32(offset + 4, true) * 4294967296`, both operations rounded -/
def counter (bytes : List UInt8) (offset : ℕ) : JsNumber :=
  (Binary64.nearest (getUint32 bytes (offset + 4) * 4294967296)).bind fun high =>
    Binary64.nearest (getUint32 bytes offset + high)

/-- a `u64` in little-endian bytes -/
def le64 (n : ℕ) : List UInt8 :=
  [UInt8.ofNat n, UInt8.ofNat (n / 256), UInt8.ofNat (n / 65536), UInt8.ofNat (n / 16777216), UInt8.ofNat (n / 4294967296),
    UInt8.ofNat (n / 1099511627776), UInt8.ofNat (n / 281474976710656), UInt8.ofNat (n / 72057594037927936)]

/-- the counters of a report, of which the language keeps every bit -/
structure Report where
  tx : ℕ
  rx : ℕ
  tx_lt : tx < 2 ^ 53
  rx_lt : rx < 2 ^ 53

def Report.bytes (r : Report) : List UInt8 := le64 r.tx ++ le64 r.rx

/-- what `TrafficStatsStore.save` is to be called with -/
def Report.sample (r : Report) : JsNumber × JsNumber := (some r.tx, some r.rx)

/-! ## The handler -/

/-- what `onStatConnection` reads and writes -/
structure Handler where
  statConnections : List ℕ
  /-- in milliseconds -/
  lastStatSave : ℤ
  /-- the calls of `TrafficStatsStore.save`, the last one at the end -/
  saved : List (JsNumber × JsNumber)

/-- `STAT_SAVE_INTERVAL_MS` -/
def statSaveIntervalMs : ℤ := 1000

def Handler.onConnect (h : Handler) (conn : ℕ) : Handler := { h with statConnections := h.statConnections ++ [conn] }

/-- 'close' and 'error' -/
def Handler.forget (h : Handler) (conn : ℕ) : Handler := { h with statConnections := h.statConnections.erase conn }

/-- does the throttle let a sample through? -/
def Handler.allows (h : Handler) (now : ℤ) : Bool := statSaveIntervalMs ≤ now - h.lastStatSave

def Handler.onMessage (h : Handler) (buf : List UInt8) (now : ℤ) : Handler :=
  if buf.length < 16 then h
  else
    let tx := counter buf 0
    let rx := counter buf 8
    if h.allows now then { h with lastStatSave := now, saved := h.saved ++ [(tx, rx)] } else h

/-! ## The endpoint -/

/-- the other side of a connection: its report, and how many bytes of it have arrived -/
structure Stream where
  report : Report
  arrived : ℕ

structure St where
  handler : Handler
  streams : ℕ → Option Stream
  /-- the reports of all connections so far -/
  reports : List Report
  /-- the reports that became complete when the throttle let a sample through -/
  due : List Report

def St.initial : St := ⟨⟨[], 0, []⟩, fun _ => none, [], []⟩

inductive Event where
  | connect (conn : ℕ) (report : Report)
  /-- the next `n` bytes of a connection, at the time `now` -/
  | message (conn n : ℕ) (now : ℤ)
  /-- 'close' or 'error' -/
  | ends (conn : ℕ)

/-- the bytes that a message carries -/
def Stream.next (t : Stream) (n : ℕ) : List UInt8 := (t.report.bytes.drop t.arrived).take n

/-- the message brings the last bytes of the report -/
def Stream.Completes (t : Stream) (n : ℕ) : Prop := t.arrived < 16 ∧ t.arrived + n = 16

instance (t : Stream) (n : ℕ) : Decidable (t.Completes n) := inferInstanceAs (Decidable (_ ∧ _))

def step (s : St) : Event → Option St
  | .connect conn report =>
    match s.streams conn with
    | some _ => none
    | none => some { s with
        handler := s.handler.onConnect conn
        streams := Function.update s.streams conn (some ⟨report, 0⟩)
        reports := s.reports ++ [report] }
  | .message conn n now =>
    match s.streams conn with
    | none => none
    | some t =>
      if 16 < t.arrived + n then none
      else some { s with
        handler := s.handler.onMessage (t.next n) now
        streams := Function.update s.streams conn (some { t with arrived := t.arrived + n })
        due := if t.Completes n ∧ s.handler.allows now then s.due ++ [t.report] else s.due }
  | .ends conn =>
    match s.streams conn with
    | none => none
    | some _ => some { s with
        handler := s.handler.forget conn
        streams := Function.update s.streams conn none }

/-- what has been saved is what was due, each time both counters of one report -/
structure Faithful (s : St) : Prop where
  saved : s.handler.saved = s.due.map Report.sample
  genuine : ∀ x ∈ s.handler.saved, ∃ r ∈ s.reports, x = r.sample

/-- a report that is due when it becomes complete came in one message -/
def Whole (s : St) : Event → Prop
  | .message conn n now => ∀ t ∈ s.streams conn, t.Completes n → s.handler.allows now = true → n = 16
  | .connect _ _ | .ends _ => True

instance (s : St) : (e : Event) → Decidable (Whole s e)
  | .message conn n now =>
    inferInstanceAs (Decidable (∀ t ∈ s.streams conn, t.Completes n → s.handler.allows now = true → n = 16))
  | .connect _ _ | .ends _ => inferInstanceAs (Decidable True)

/-! ## Sixteen bytes -/

theorem getUint32_le64 {n : ℕ} (h : n < 2 ^ 64) (rest : List UInt8) :
    getUint32 (le64 n ++ rest) 0 + getUint32 (le64 n ++ rest) 4 * 4294967296 = n := by
  simp only [getUint32, le64, List.cons_append, List.nil_append, List.getD_cons_zero, List.getD_cons_succ, Nat.reduceAdd,
    UInt8.toNat_ofNat']
  omega

theorem getUint32_drop (a b : List UInt8) (offset : ℕ) : getUint32 (a ++ b) (a.length + offset) = getUint32 b offset := by
  have hget : ∀ k, (a ++ b).getD (a.length + offset + k) 0 = b.getD (offset + k) 0 := fun k => by
    rw [List.getD_eq_getElem?_getD, List.getElem?_append_right (by omega), List.getD_eq_getElem?_getD]
    congr 2
    omega
  have hzero := hget 0
  simp only [Nat.add_zero] at hzero
  simp only [getUint32, hget, hzero]

/-- **Counters.** A counter below 2^53 comes out exactly. -/
theorem counter_le64 {n : ℕ} (h : n < 2 ^ 53) (pre rest : List UInt8) :
    counter (pre ++ (le64 n ++ rest)) pre.length = some (n : ℚ) := by
  have hsum := getUint32_le64 (n := n) (by omega) rest
  have hlow : getUint32 (pre ++ (le64 n ++ rest)) pre.length = getUint32 (le64 n ++ rest) 0 := getUint32_drop pre _ 0
  have hhigh : getUint32 (pre ++ (le64 n ++ rest)) (pre.length + 4) = getUint32 (le64 n ++ rest) 4 := getUint32_drop pre _ 4
  unfold counter
  rw [hlow, hhigh]
  generalize getUint32 (le64 n ++ rest) 0 = low at hsum
  generalize getUint32 (le64 n ++ rest) 4 = high at hsum
  have hmul : Binary64.nearest ((high : ℚ) * 4294967296) = some ((high : ℚ) * 4294967296) := by
    have := Binary64.isDouble_int (n := (high : ℤ) * 4294967296) (by omega)
    unfold Binary64.IsDouble at this
    push_cast at this
    exact this
  have hadd : (low : ℚ) + (high : ℚ) * 4294967296 = n := by exact_mod_cast hsum
  rw [hmul, Option.bind_some, hadd]
  exact Binary64.isDouble_int (n := (n : ℤ)) (by omega)

theorem length_bytes (r : Report) : r.bytes.length = 16 := rfl

/-- a message with a whole report saves it, when the throttle lets it through -/
theorem onMessage_whole (h : Handler) (r : Report) (now : ℤ) :
    h.onMessage r.bytes now =
      if h.allows now then { h with lastStatSave := now, saved := h.saved ++ [r.sample] } else h := by
  have htx : counter r.bytes 0 = some (r.tx : ℚ) := counter_le64 r.tx_lt [] (le64 r.rx)
  have hrx : counter r.bytes 8 = some (r.rx : ℚ) := by
    have := counter_le64 r.rx_lt (le64 r.tx) []
    rwa [List.append_nil] at this
  unfold Handler.onMessage
  rw [length_bytes, if_neg (by decide), htx, hrx]
  rfl

/-- a shorter message is dropped -/
theorem onMessage_short (h : Handler) {buf : List UInt8} (hbuf : buf.length < 16) (now : ℤ) : h.onMessage buf now = h :=
  if_pos hbuf

/-- the next bytes of a stream: only a whole report at once is saved -/
theorem onMessage_next (h : Handler) (t : Stream) {n : ℕ} (hlen : t.arrived + n ≤ 16) (now : ℤ) :
    h.onMessage (t.next n) now =
      if n = 16 ∧ h.allows now then { h with lastStatSave := now, saved := h.saved ++ [t.report.sample] } else h := by
  by_cases hn : n = 16
  · have harrived : t.arrived = 0 := by omega
    have hnext : t.next n = t.report.bytes := by
      rw [Stream.next, harrived, hn, List.drop_zero]
      rfl
    rw [hnext, onMessage_whole]
    simp only [hn, true_and]
  · have hshort : (t.next n).length < 16 := by
      rw [Stream.next, List.length_take]
      omega
    rw [onMessage_short h hshort, if_neg fun hc => hn hc.1]

/-! ## One event -/

theorem step_connect {s s' : St} {conn : ℕ} {report : Report} (h : step s (.connect conn report) = some s') :
    s' = { s with
      handler := s.handler.onConnect conn
      streams := Function.update s.streams conn (some ⟨report, 0⟩)
      reports := s.reports ++ [report] } := by
  simp only [step] at h
  split at h
  · cases h
  · exact (Option.some.inj h).symm

theorem step_message {s s' : St} {conn n : ℕ} {now : ℤ} (h : step s (.message conn n now) = some s') :
    ∃ t, s.streams conn = some t ∧ t.arrived + n ≤ 16 ∧ s' = { s with
      handler := s.handler.onMessage (t.next n) now
      streams := Function.update s.streams conn (some { t with arrived := t.arrived + n })
      due := if t.Completes n ∧ s.handler.allows now then s.due ++ [t.report] else s.due } := by
  simp only [step] at h
  split at h
  · cases h
  · rename_i t ht
    by_cases hlen : 16 < t.arrived + n
    · rw [if_pos hlen] at h
      cases h
    · rw [if_neg hlen] at h
      exact ⟨t, ht, not_lt.1 hlen, (Option.some.inj h).symm⟩

theorem step_ends {s s' : St} {conn : ℕ} (h : step s (.ends conn) = some s') :
    s' = { s with
      handler := s.handler.forget conn
      streams := Function.update s.streams conn none } := by
  simp only [step] at h
  split at h
  · cases h
  · exact (Option.some.inj h).symm

/-- the streams carry the reports -/
def Known (s : St) : Prop := ∀ conn t, s.streams conn = some t → t.report ∈ s.reports

theorem known_update {streams : ℕ → Option Stream} {reports : List Report} {conn : ℕ} {x : Option Stream}
    (hs : ∀ c t, streams c = some t → t.report ∈ reports) (hx : ∀ t, x = some t → t.report ∈ reports) :
    ∀ c t, Function.update streams conn x c = some t → t.report ∈ reports := by
  intro c t ht
  by_cases hc : c = conn
  · rw [hc, Function.update_self] at ht
    exact hx t ht
  · rw [Function.update_of_ne hc] at ht
    exact hs c t ht

theorem known_step (s : St) (e : Event) (s' : St) (hs : Known s) (h : step s e = some s') : Known s' := by
  cases e with
  | connect conn report =>
    obtain rfl := step_connect h
    refine known_update (fun c t ht => List.mem_append_left _ (hs c t ht)) fun t ht => ?_
    cases ht
    exact List.mem_append_right _ List.mem_cons_self
  | message conn n now =>
    obtain ⟨t0, ht0, -, rfl⟩ := step_message h
    refine known_update hs fun t ht => ?_
    cases ht
    exact hs conn t0 ht0
  | ends conn =>
    obtain rfl := step_ends h
    exact known_update hs fun t ht => by cases ht

/-- a message: what is saved and what is due -/
theorem message_iff {s s' : St} {conn n : ℕ} {now : ℤ} (hs : Faithful s) (hknown : Known s)
    (h : step s (.message conn n now) = some s') : Faithful s' ↔ Whole s (.message conn n now) := by
  obtain ⟨t, ht, hlen, rfl⟩ := step_message h
  have hwhole : Whole s (.message conn n now) ↔ (t.Completes n → s.handler.allows now = true → n = 16) := by
    constructor
    · intro hw
      exact hw t ht
    · intro hw t' ht'
      obtain rfl := Option.some.inj (ht.symm.trans ht')
      exact hw
  rw [hwhole, onMessage_next s.handler t hlen]
  by_cases hdue : t.Completes n ∧ s.handler.allows now = true
  · rw [if_pos hdue]
    by_cases hn : n = 16
    · -- the whole report in one message
      rw [if_pos ⟨hn, hdue.2⟩]
      refine iff_of_true ⟨?_, ?_⟩ fun _ _ => hn
      · show s.handler.saved ++ [t.report.sample] = _
        rw [hs.saved, List.map_append, List.map_singleton]
      · intro x hx
        rcases List.mem_append.1 hx with hx | hx
        · exact hs.genuine x hx
        · exact ⟨t.report, hknown conn t ht, List.mem_singleton.1 hx⟩
    · -- the report is due, and nothing is saved
      rw [if_neg fun hc => hn hc.1]
      refine iff_of_false ?_ fun hw => hn (hw hdue.1 hdue.2)
      rintro ⟨hsaved, -⟩
      have hlength := congrArg List.length hsaved
      simp only [hs.saved, List.length_map, List.length_append, List.length_singleton] at hlength
      omega
  · have hsave : ¬ (n = 16 ∧ s.handler.allows now = true) := by
      rintro ⟨hn, hallows⟩
      exact hdue ⟨⟨by omega, by omega⟩, hallows⟩
    rw [if_neg hdue, if_neg hsave]
    exact iff_of_true ⟨hs.saved, hs.genuine⟩ fun hc hallows => absurd ⟨hc, hallows⟩ hdue

/-- **One event.** What has been saved stays what was due, unless a report that is due ends in a message that is not the
whole of it. -/
theorem faithful_step (s : St) (e : Event) (s' : St) (hs : Known s ∧ Faithful s) (h : step s e = some s') :
    (Known s' ∧ Faithful s') ↔ Whole s e := by
  have hknown := known_step s e s' hs.1 h
  cases e with
  | connect conn report =>
    obtain rfl := step_connect h
    refine iff_of_true ⟨hknown, hs.2.saved, fun x hx => ?_⟩ trivial
    obtain ⟨r, hr, hx⟩ := hs.2.genuine x hx
    exact ⟨r, List.mem_append_left _ hr, hx⟩
  | message conn n now =>
    rw [← message_iff hs.2 hs.1 h]
    exact and_iff_right hknown
  | ends conn =>
    obtain rfl := step_ends h
    exact iff_of_true ⟨hknown, hs.2.saved, hs.2.genuine⟩ trivial

/-! ## Runs -/

theorem known_initial : Known .initial := fun _ _ h => by cases h

theorem faithful_initial : Faithful .initial := ⟨rfl, fun _ h => absurd h List.not_mem_nil⟩

/-- **What has been saved is what was due, in every state of a run, if and only if no report that is due comes in
pieces.** -/
theorem faithful_iff (events : List Event) (s : St) (h : Steps.run step .initial events = some s) :
    (∀ before after t, events = before ++ after → Steps.run step .initial before = some t → Faithful t) ↔
      Steps.Along step Whole .initial events := by
  rw [Steps.along_iff_always faithful_step ⟨known_initial, faithful_initial⟩ h]
  constructor
  · intro hall before after t hevents hrun
    exact ⟨Steps.run_inv' known_step known_initial hrun, hall before after t hevents hrun⟩
  · intro hall before after t hevents hrun
    exact (hall before after t hevents hrun).2

def aReport : Report := ⟨1234, 5678, by decide, by decide⟩

/-- two reports at once, the second of them in pieces, when no save is due -/
def twoReports : List Event :=
  [.connect 0 aReport, .connect 1 aReport, .message 1 9 1700000000000, .message 0 16 1700000000000,
    .message 1 7 1700000000100, .ends 0, .ends 1]

theorem faithful_iff_two : ∃ s, Steps.run step .initial twoReports = some s ∧ s.due = [aReport] ∧ Faithful s := by
  have hrun : ∃ s, Steps.run step .initial twoReports = some s ∧ s.due = [aReport] := ⟨_, rfl, rfl⟩
  obtain ⟨s, hs, hdue⟩ := hrun
  exact ⟨s, hs, hdue, (faithful_iff twoReports s hs).2 (by decide) twoReports [] s (by simp) hs⟩

/-- **Lost.** A report comes in two messages, and is not saved. -/
theorem lost : ¬ ∀ (events : List Event) (s : St), Steps.run step .initial events = some s → Faithful s := by
  intro h
  have hs := (h [.connect 0 aReport, .message 0 8 1700000000000, .message 0 8 1700000000000] _ rfl).saved
  cases hs

end StatReports

end ShadowsocksOhos
