/-
The two slots of `sslocal_last_error` and the pointers that it hands out (`lib.rs`: `LAST_ERROR`, `LAST_ERROR_HANDED_OUT`,
`set_last_error`, `sslocal_last_error`). Any number of threads record errors and ask for the last one; a mutex guards each
slot, and between the two critical sections of `sslocal_last_error` every other thread may run. A `CString` is a buffer
with one owner: a slot, or a call in progress. What was in a slot is freed when something else is put there, and the
caller of `sslocal_last_error` keeps a pointer that it does not own.

- `slots_inv`: the invariant of every run.
- `undisturbed`: a call that nobody disturbs is the atomic one.
- `handed_out`: no buffer leaks or is freed twice, and the pointer of a call leads to the text that was recorded last at a
moment of this call, until another call returns.
-/
import ShadowsocksOhos.Core.Buffers
import ShadowsocksOhos.Core.Steps
import ShadowsocksOhos.Ffi.LastError

namespace ShadowsocksOhos

namespace ErrorSlots

/-! ## Model -/

/-- where a thread is -/
inductive Pc where
  | idle
  /-- `set_last_error` has made its `CString` -/
  | setting (p : ℕ)
  /-- `sslocal_last_error` was called when this many errors had been recorded -/
  | asked (began : ℕ)
  /-- `LAST_ERROR` was cloned when this many errors had been recorded -/
  | cloned (began seen : ℕ) (message : Option ℕ)
deriving DecidableEq, Repr

/-- a call of `sslocal_last_error` that has returned, with how many errors had been recorded when it began, when it cloned
`LAST_ERROR` and when it returned, and what its pointer led to -/
structure Return where
  thread : ℕ
  began : ℕ
  seen : ℕ
  ended : ℕ
  pointer : Option ℕ
  text : Option Text
deriving DecidableEq, Repr

structure St where
  heap : Buffers Text
  lastError : Option ℕ
  handedOut : Option ℕ
  threads : ℕ → Pc
  /-- the texts that were recorded, the last one at the end -/
  recorded : List Text
  /-- the calls that have returned, the last one first -/
  returns : List Return

def initial : St := ⟨Buffers.empty, none, none, fun _ => .idle, [], []⟩

inductive Action where
  /-- `set_last_error` is called -/
  | setLastError (thread : ℕ) (message : Text)
  /-- `sslocal_last_error` is called -/
  | sslocalLastError (thread : ℕ)
  /-- the thread goes through its next critical section -/
  | step (thread : ℕ)
deriving DecidableEq, Repr

def St.setPc (s : St) (t : ℕ) (pc : Pc) : St := { s with threads := Function.update s.threads t pc }

/-- what a pointer leads to -/
def St.read (s : St) (pointer : Option ℕ) : Option Text := pointer.bind s.heap.get

/-- a `CString` with this text -/
def St.make (s : St) (text : Text) : St × ℕ := ({ s with heap := (s.heap.alloc text).1 }, (s.heap.alloc text).2)

/-- a copy of what the pointer leads to -/
def St.clone (s : St) (pointer : Option ℕ) : St × Option ℕ :=
  match s.read pointer with
  | some text => ((s.make text).1, some (s.make text).2)
  | none => (s, none)

def step (s : St) : Action → Option St
  | .setLastError t message =>
    match s.threads t with
    | .idle => some ((s.make (cString message)).1.setPc t (.setting (s.make (cString message)).2))
    | _ => none
  | .sslocalLastError t =>
    match s.threads t with
    | .idle => some (s.setPc t (.asked s.recorded.length))
    | _ => none
  | .step t =>
    match s.threads t with
    | .idle => none
    | .setting p =>
      (s.heap.drop s.lastError).map fun heap =>
        { s.setPc t .idle with
          heap := heap
          lastError := some p
          recorded := s.recorded ++ (s.heap.get p).toList }
    | .asked began =>
      some ((s.clone s.lastError).1.setPc t (.cloned began s.recorded.length (s.clone s.lastError).2))
    | .cloned began seen message =>
      (s.heap.drop s.handedOut).map fun heap =>
        { s.setPc t .idle with
          heap := heap
          handedOut := message
          returns := ⟨t, began, seen, s.recorded.length, message, message.bind heap.get⟩ :: s.returns }

/-! ## Owners -/

inductive Owner where
  | lastError
  | handedOut
  | thread (t : ℕ)
deriving DecidableEq, Repr

/-- the `CString` of a call in progress -/
def Pc.holds : Pc → Option ℕ
  | .idle | .asked _ => none
  | .setting p => some p
  | .cloned _ _ message => message

def St.holds (s : St) : Owner → Option ℕ
  | .lastError => s.lastError
  | .handedOut => s.handedOut
  | .thread t => (s.threads t).holds

theorem holds_setPc (s : St) (t : ℕ) (pc : Pc) :
    (s.setPc t pc).holds = Function.update s.holds (.thread t) pc.holds := by
  funext o
  cases o with
  | lastError | handedOut => rfl
  | thread u =>
    by_cases hu : u = t
    · subst hu
      simp [St.holds, St.setPc]
    · simp [St.holds, St.setPc, hu]

/-- the text that was recorded last, when this many had been -/
def lastOf (recorded : List Text) (n : ℕ) : Option Text := (recorded.take n).getLast?

theorem lastOf_append {recorded : List Text} {n : ℕ} (h : n ≤ recorded.length) (more : List Text) :
    lastOf (recorded ++ more) n = lastOf recorded n := by
  unfold lastOf
  rw [List.take_append_of_le_length h]

theorem lastOf_length (recorded : List Text) : lastOf recorded recorded.length = recorded.getLast? := by
  unfold lastOf
  rw [List.take_length]

/-! ## Invariant -/

/-- a call in progress: its copy is of a text that was the last one at a moment since it began -/
def Pc.Ok (s : St) : Pc → Prop
  | .idle | .setting _ => True
  | .asked began => began ≤ s.recorded.length
  | .cloned began seen message =>
    began ≤ seen ∧ seen ≤ s.recorded.length ∧ s.read message = lastOf s.recorded seen

/-- a call that has returned: it gave the text that was recorded last at a moment between its beginning and its end -/
structure Return.Ok (recorded : List Text) (r : Return) : Prop where
  began : r.began ≤ r.seen
  seen : r.seen ≤ r.ended
  ended : r.ended ≤ recorded.length
  text : r.text = lastOf recorded r.seen
  null : r.pointer = none ↔ r.text = none

structure Inv (s : St) : Prop where
  owned : s.heap.Owned s.holds
  lastError : s.read s.lastError = s.recorded.getLast?
  threads : ∀ t, (s.threads t).Ok s
  returned : ∀ r ∈ s.returns, r.Ok s.recorded
  /-- the last pointer is the one in the slot -/
  latest : ∀ r rest, s.returns = r :: rest → s.handedOut = r.pointer ∧ s.read r.pointer = r.text
  /-- the ones before lead nowhere -/
  gone : ∀ r rest, s.returns = r :: rest → ∀ r' ∈ rest, ∀ p, r'.pointer = some p → p < s.heap.cells.length ∧
    s.heap.get p = none
  none_yet : s.returns = [] → s.handedOut = none

theorem inv_initial : Inv initial := by
  refine ⟨?_, rfl, fun _ => trivial, nofun, nofun, nofun, fun _ => rfl⟩
  have hnone : initial.holds = fun _ => none := by
    funext o
    cases o <;> rfl
  rw [hnone]
  exact Buffers.owned_empty

/-- a call in progress is not affected by new errors, as long as its copy stays -/
theorem Pc.Ok.mono {s s' : St} {pc : Pc} (h : pc.Ok s) {more : List Text} (hr : s'.recorded = s.recorded ++ more)
    (hread : s'.read pc.holds = s.read pc.holds) : pc.Ok s' := by
  have hle : s.recorded.length ≤ s'.recorded.length := by
    rw [hr, List.length_append]
    exact Nat.le_add_right _ _
  cases pc with
  | idle | setting p => trivial
  | asked began => exact le_trans h hle
  | cloned began seen message =>
    obtain ⟨hbegan, hseen, htext⟩ := h
    refine ⟨hbegan, hseen.trans hle, ?_⟩
    rw [hr, lastOf_append hseen]
    exact hread.trans htext

theorem Return.Ok.mono {recorded : List Text} {r : Return} (h : r.Ok recorded) (more : List Text) :
    r.Ok (recorded ++ more) := by
  refine ⟨h.began, h.seen, ?_, ?_, h.null⟩
  · rw [List.length_append]
    exact h.ended.trans (Nat.le_add_right _ _)
  · rw [lastOf_append (h.seen.trans h.ended)]
    exact h.text

/-! ### Making a text -/

variable {s s' : St} {t : ℕ}

/-- a thread that holds nothing makes a `CString`, or none -/
theorem inv_make (hi : Inv s) (hold : (s.threads t).holds = none) (text : Text) {pc : Pc}
    (hpc : pc.holds = some (s.make text).2) (hok : pc.Ok (s.make text).1) : Inv ((s.make text).1.setPc t pc) := by
  have hread : ∀ o, (s.make text).1.read (s.holds o) = s.read (s.holds o) := fun o => hi.owned.read_alloc o text
  refine ⟨?_, ?_, fun u => ?_, hi.returned, fun r rest hr => ?_, fun r rest hr r' hr' p hp => ?_, hi.none_yet⟩
  · rw [holds_setPc, hpc]
    exact hi.owned.alloc (i := Owner.thread t) hold text
  · exact (hread .lastError).trans hi.lastError
  · by_cases hu : u = t
    · subst hu
      simp only [St.setPc, Function.update_self]
      exact hok.mono (List.append_nil _).symm rfl
    · simp only [St.setPc, Function.update_of_ne hu]
      exact (hi.threads u).mono (List.append_nil _).symm (hread (.thread u))
  · obtain ⟨hslot, htext⟩ := hi.latest r rest hr
    refine ⟨hslot, ?_⟩
    rw [← hslot] at htext ⊢
    exact (hread .handedOut).trans htext
  · obtain ⟨hlt, hgone⟩ := hi.gone r rest hr r' hr' p hp
    exact ⟨hlt.trans_le (Buffers.length_alloc (b := s.heap) (x := text) ▸ Nat.le_succ _),
      Buffers.get_alloc_of_none hlt hgone⟩

/-- a thread that holds nothing goes on without a `CString` -/
theorem inv_pc (hi : Inv s) (hold : (s.threads t).holds = none) {pc : Pc} (hpc : pc.holds = none) (hok : pc.Ok s) :
    Inv (s.setPc t pc) := by
  refine ⟨?_, hi.lastError, fun u => ?_, hi.returned, hi.latest, hi.gone, hi.none_yet⟩
  · have hsame : (s.setPc t pc).holds = s.holds := by
      rw [holds_setPc, hpc]
      exact Function.update_eq_self_iff.2 hold.symm
    rw [hsame]
    exact hi.owned
  · by_cases hu : u = t
    · subst hu
      simp only [St.setPc, Function.update_self]
      exact hok.mono (List.append_nil _).symm rfl
    · simp only [St.setPc, Function.update_of_ne hu]
      exact (hi.threads u).mono (List.append_nil _).symm rfl

/-! ### The critical sections -/

/-- `LAST_ERROR` is set -/
theorem inv_setting (hi : Inv s) {p : ℕ} (hpc : s.threads t = .setting p) {heap : Buffers Text}
    (hdrop : s.heap.drop s.lastError = some heap) :
    Inv { s.setPc t .idle with heap := heap, lastError := some p, recorded := s.recorded ++ (s.heap.get p).toList } := by
  have hp : s.holds (.thread t) = some p := by simp [St.holds, hpc, Pc.holds]
  have hread : ∀ o, o ≠ .lastError → (s.holds o).bind heap.get = s.read (s.holds o) :=
    fun o ho => hi.owned.read_drop (j := Owner.lastError) hdrop ho
  have hpread : heap.get p = s.heap.get p := by simpa [hp, St.read] using hread (.thread t) nofun
  obtain ⟨text, htext⟩ := Option.isSome_iff_exists.1 (hi.owned.alive _ p hp)
  refine ⟨?_, ?_, fun u => ?_, fun r hr => (hi.returned r hr).mono _, fun r rest hr => ?_, fun r rest hr r' hr' q hq => ?_,
    hi.none_yet⟩
  · convert hi.owned.replace (i := Owner.thread t) (j := .lastError) nofun hdrop using 1
    funext o
    cases o with
    | lastError => simp [St.holds, hpc, Pc.holds]
    | handedOut => simp [St.holds, St.setPc]
    | thread u =>
      by_cases hu : u = t
      · subst hu
        simp [St.holds, St.setPc, Pc.holds]
      · simp [St.holds, St.setPc, hu]
  · simp [St.read, hpread, htext]
  · by_cases hu : u = t
    · subst hu
      simp only [St.setPc, Function.update_self]
      trivial
    · simp only [St.setPc, Function.update_of_ne hu]
      exact (hi.threads u).mono rfl (hread (.thread u) nofun)
  · obtain ⟨hslot, hlatest⟩ := hi.latest r rest hr
    refine ⟨hslot, ?_⟩
    rw [← hslot] at hlatest ⊢
    exact (hread .handedOut nofun).trans hlatest
  · obtain ⟨hlt, hgone⟩ := hi.gone r rest hr r' hr' q hq
    exact ⟨hlt.trans_eq (Buffers.length_drop hdrop).symm, Buffers.get_drop_of_none hdrop hgone⟩

/-- `LAST_ERROR` is cloned -/
theorem inv_asked (hi : Inv s) {began : ℕ} (hpc : s.threads t = .asked began) :
    Inv ((s.clone s.lastError).1.setPc t (.cloned began s.recorded.length (s.clone s.lastError).2)) := by
  have hok : began ≤ s.recorded.length := by
    have h := hi.threads t
    rwa [hpc] at h
  have hold : (s.threads t).holds = none := by rw [hpc]; rfl
  have hlast : s.read s.lastError = lastOf s.recorded s.recorded.length := hi.lastError.trans (lastOf_length _).symm
  unfold St.clone
  cases hc : s.read s.lastError with
  | none => exact inv_pc hi hold rfl ⟨hok, le_rfl, (hc ▸ hlast : none = _)⟩
  | some text =>
    refine inv_make hi hold text rfl ⟨hok, le_rfl, ?_⟩
    exact (Buffers.get_alloc_self (b := s.heap)).trans (hc ▸ hlast)

/-- the copy goes to `LAST_ERROR_HANDED_OUT`, and a pointer to it to the caller -/
theorem inv_cloned (hi : Inv s) {began seen : ℕ} {message : Option ℕ} (hpc : s.threads t = .cloned began seen message)
    {heap : Buffers Text} (hdrop : s.heap.drop s.handedOut = some heap) :
    Inv { s.setPc t .idle with
      heap := heap, handedOut := message
      returns := ⟨t, began, seen, s.recorded.length, message, message.bind heap.get⟩ :: s.returns } := by
  have hm : s.holds (.thread t) = message := by simp [St.holds, hpc, Pc.holds]
  have hread : ∀ o, o ≠ .handedOut → (s.holds o).bind heap.get = s.read (s.holds o) :=
    fun o ho => hi.owned.read_drop (j := Owner.handedOut) hdrop ho
  have hmread : message.bind heap.get = s.read message := by simpa [hm] using hread (.thread t) nofun
  obtain ⟨hbegan, hseen, htext⟩ : began ≤ seen ∧ seen ≤ s.recorded.length ∧ s.read message = lastOf s.recorded seen := by
    have h := hi.threads t
    rwa [hpc] at h
  refine ⟨?_, (hread .lastError nofun).trans hi.lastError, fun u => ?_, ?_, fun r rest hr => ?_,
    fun r rest hr r' hr' q hq => ?_, nofun⟩
  · convert hi.owned.replace (i := Owner.thread t) (j := .handedOut) nofun hdrop using 1
    funext o
    cases o with
    | lastError => simp [St.holds, St.setPc]
    | handedOut => simp [St.holds, hpc, Pc.holds]
    | thread u =>
      by_cases hu : u = t
      · subst hu
        simp [St.holds, St.setPc, Pc.holds]
      · simp [St.holds, St.setPc, hu]
  · by_cases hu : u = t
    · subst hu
      simp only [St.setPc, Function.update_self]
      trivial
    · simp only [St.setPc, Function.update_of_ne hu]
      exact (hi.threads u).mono (List.append_nil _).symm (hread (.thread u) nofun)
  · refine List.forall_mem_cons.2 ⟨⟨hbegan, hseen, le_rfl, hmread.trans htext, ?_⟩, hi.returned⟩
    -- the copy is alive
    cases message with
    | none => exact iff_of_true rfl rfl
    | some p =>
      have halive : (s.heap.get p).isSome := hi.owned.alive _ p hm
      refine iff_of_false nofun fun hnone => ?_
      have hget : s.heap.get p = none := hmread.symm.trans hnone
      rw [hget] at halive
      cases halive
  · cases hr
    exact ⟨rfl, rfl⟩
  · cases hr
    have hlen := Buffers.length_drop hdrop
    cases hret : s.returns with
    | nil =>
      rw [hret] at hr'
      cases hr'
    | cons r0 rest0 =>
      rw [hret] at hr'
      rcases List.mem_cons.1 hr' with rfl | hr'
      · -- the last pointer before this one
        have hslot : s.handedOut = some q := (hi.latest _ rest0 hret).1.trans hq
        have halive := hi.owned.alive .handedOut q hslot
        rw [hslot] at hdrop
        exact ⟨(Buffers.lt_of_get halive).trans_eq hlen.symm, Buffers.get_drop_self hdrop⟩
      · obtain ⟨hlt, hgone⟩ := hi.gone r0 rest0 hret r' hr' q hq
        exact ⟨hlt.trans_eq hlen.symm, Buffers.get_drop_of_none hdrop hgone⟩

/-- **Step lemma.** -/
theorem slots_inv (s : St) (a : Action) (s' : St) (hi : Inv s) (h : step s a = some s') : Inv s' := by
  cases a with
  | setLastError t message =>
    simp only [step] at h
    split at h
    · rename_i hpc
      cases h
      exact inv_make hi (by rw [hpc]; rfl) _ rfl trivial
    · cases h
  | sslocalLastError t =>
    simp only [step] at h
    split at h
    · rename_i hpc
      cases h
      exact inv_pc hi (by rw [hpc]; rfl) rfl le_rfl
    · cases h
  | step t =>
    simp only [step] at h
    split at h
    · cases h
    · rename_i p hpc
      obtain ⟨heap, hdrop, rfl⟩ := Option.map_eq_some_iff.1 h
      exact inv_setting hi hpc hdrop
    · rename_i began hpc
      cases h
      exact inv_asked hi hpc
    · rename_i began seen message hpc
      obtain ⟨heap, hdrop, rfl⟩ := Option.map_eq_some_iff.1 h
      exact inv_cloned hi hpc hdrop

/-- nobody waits for ever, since nothing is freed twice -/
theorem never_stuck (hi : Inv s) (ht : s.threads t ≠ .idle) : ∃ s', step s (.step t) = some s' := by
  cases hpc : s.threads t with
  | idle => exact absurd hpc ht
  | asked began => simp [step, hpc]
  | setting p =>
    obtain ⟨heap, hdrop, -⟩ := hi.owned.drop .lastError
    have hlast : s.heap.drop s.lastError = some heap := hdrop
    simp [step, hpc, hlast]
  | cloned began seen message =>
    obtain ⟨heap, hdrop, -⟩ := hi.owned.drop .handedOut
    have hslot : s.heap.drop s.handedOut = some heap := hdrop
    simp [step, hpc, hslot]

/-! ## Calls of one thread -/

theorem clone_fields (s : St) (pointer : Option ℕ) :
    (s.clone pointer).1.recorded = s.recorded ∧ (s.clone pointer).1.returns = s.returns := by
  unfold St.clone
  split <;> exact ⟨rfl, rfl⟩

theorem step_asked {began : ℕ} (hpc : s.threads t = .asked began) (h : step s (.step t) = some s') :
    (∃ message, s'.threads t = .cloned began s.recorded.length message) ∧ s'.recorded = s.recorded ∧
      s'.returns = s.returns := by
  simp only [step, hpc] at h
  cases h
  exact ⟨⟨_, Function.update_self _ _ _⟩, clone_fields s _⟩

theorem step_cloned {began seen : ℕ} {message : Option ℕ} (hpc : s.threads t = .cloned began seen message)
    (h : step s (.step t) = some s') :
    ∃ r, s'.returns = r :: s.returns ∧ r.seen = seen ∧ s'.recorded = s.recorded := by
  simp only [step, hpc] at h
  obtain ⟨heap, -, rfl⟩ := Option.map_eq_some_iff.1 h
  exact ⟨_, rfl, rfl, rfl⟩

/-- **Undisturbed.** A thread that is not interrupted gets what the atomic `sslocal_last_error` gives. -/
theorem undisturbed {α : Type} (hi : Inv s) (ht : s.threads t = .idle) (g : Globals α)
    (hg : g.lastError = s.recorded.getLast?) (handedOut : Option Text) :
    ∃ s' r, Steps.run step s [.sslocalLastError t, .step t, .step t] = some s' ∧ s'.returns = r :: s.returns ∧
      r.text = (LastError.sslocalLastError g handedOut).1 ∧ s'.read r.pointer = r.text := by
  have h1 : step s (.sslocalLastError t) = some (s.setPc t (.asked s.recorded.length)) := by simp only [step, ht]
  have hi1 := slots_inv _ _ _ hi h1
  have hpc1 : (s.setPc t (.asked s.recorded.length)).threads t = .asked s.recorded.length := Function.update_self _ _ _
  obtain ⟨s2, h2⟩ := never_stuck hi1 (t := t) (by rw [hpc1]; exact nofun)
  have hi2 := slots_inv _ _ _ hi1 h2
  obtain ⟨⟨message, hpc2⟩, hrec2, hret2⟩ := step_asked hpc1 h2
  obtain ⟨s3, h3⟩ := never_stuck hi2 (t := t) (by rw [hpc2]; exact nofun)
  have hi3 := slots_inv _ _ _ hi2 h3
  obtain ⟨r, hret3, hseen, hrec3⟩ := step_cloned hpc2 h3
  have hmem : r ∈ s3.returns := hret3 ▸ List.mem_cons_self
  refine ⟨s3, r, by simp only [Steps.run, h1, h2, h3], by rw [hret3, hret2]; rfl, ?_, (hi3.latest r _ hret3).2⟩
  calc r.text = lastOf s3.recorded r.seen := (hi3.returned r hmem).text
    _ = lastOf s.recorded s.recorded.length := by rw [hseen, hrec3, hrec2]; rfl
    _ = g.lastError := (lastOf_length _).trans hg.symm

/-! ## Main result -/

/-- in `sslocal_last_error` -/
def Pc.asking : Pc → Bool
  | .idle | .setting _ => false
  | .asked _ | .cloned _ _ _ => true

def Action.asks : Action → Bool
  | .sslocalLastError _ => true
  | _ => false

/-- while nobody is in `sslocal_last_error` and nobody calls it, no call returns -/
theorem quiet_step (returns : List Return) (s : St) (a : Action) (s' : St)
    (hq : Inv s ∧ (∀ t, (s.threads t).asking = false) ∧ s.returns = returns) (ha : a.asks = false)
    (h : step s a = some s') : Inv s' ∧ (∀ t, (s'.threads t).asking = false) ∧ s'.returns = returns := by
  obtain ⟨hi, hquiet, hret⟩ := hq
  have hset : ∀ (t : ℕ) (pc : Pc), pc.asking = false → ∀ u, (Function.update s.threads t pc u).asking = false := by
    intro t pc hpc u
    by_cases hu : u = t
    · subst hu
      rw [Function.update_self, hpc]
    · rw [Function.update_of_ne hu, hquiet u]
  refine ⟨slots_inv s a s' hi h, ?_⟩
  cases a with
  | sslocalLastError t => cases ha
  | setLastError t message =>
    simp only [step] at h
    split at h
    · cases h
      exact ⟨hset t _ rfl, hret⟩
    · cases h
  | step t =>
    have ht := hquiet t
    simp only [step] at h
    split at h
    · cases h
    · obtain ⟨heap, -, rfl⟩ := Option.map_eq_some_iff.1 h
      exact ⟨hset t _ rfl, hret⟩
    · rename_i began hpc
      rw [hpc] at ht
      cases ht
    · rename_i began seen message hpc
      rw [hpc] at ht
      cases ht

/-- **Handed-out messages.** However the threads that record errors and ask for the last one interleave:
- every `CString` that is alive is owned by one slot or one call in progress, so none leaks, and none is freed twice, so
no call gets stuck;
- a call returns the text that was recorded last at a moment between its beginning and its end, and a null pointer exactly
when there was none;
- the pointer of the call that returned last leads to this text, and the pointers of the calls before it lead nowhere;
- so while nobody is in `sslocal_last_error` or calls it, the pointer stays good, whatever errors are recorded. -/
theorem handed_out (actions : List Action) (s : St) (h : Steps.run step initial actions = some s) :
    s.heap.Owned s.holds ∧
    (∀ t, s.threads t ≠ .idle → ∃ s', step s (.step t) = some s') ∧
    (∀ r ∈ s.returns, r.Ok s.recorded) ∧
    (∀ r rest, s.returns = r :: rest → s.read r.pointer = r.text ∧ ∀ r' ∈ rest, s.read r'.pointer = none) ∧
    ((∀ t, (s.threads t).asking = false) → ∀ more s', Steps.run step s more = some s' → (∀ a ∈ more, a.asks = false) →
      ∀ r rest, s.returns = r :: rest → s'.read r.pointer = r.text) := by
  have hi : Inv s := Steps.run_inv' slots_inv inv_initial h
  refine ⟨hi.owned, fun t ht => never_stuck hi ht, hi.returned, fun r rest hr => ⟨(hi.latest r rest hr).2, ?_⟩, ?_⟩
  · intro r' hr'
    cases hp : r'.pointer with
    | none => rfl
    | some p => exact (hi.gone r rest hr r' hr' p hp).2
  · intro hquiet more s' hmore hasks r rest hr
    obtain ⟨hi', -, hret⟩ := Steps.run_inv (quiet_step s.returns) ⟨hi, hquiet, rfl⟩
      (Steps.along_of_forall hasks) hmore
    exact (hi'.latest r rest (hret.trans hr)).2

/-- thread 1 clones the first message, thread 0 records a second one, and both hand out what they have -/
def twoThreads : List Action :=
  [.setLastError 0 "the first error".toList, .step 0, .sslocalLastError 1, .step 1, .setLastError 0 "a second".toList, .step 0,
    .sslocalLastError 0, .step 0, .step 0, .step 1]

theorem handed_out_two : ∃ s, Steps.run step initial twoThreads = some s ∧
    s.returns.map (fun r => (r.thread, r.text, s.read r.pointer)) =
      [(1, some "the first error".toList, some "the first error".toList), (0, some "a second".toList, none)] ∧
    (∀ r ∈ s.returns, r.Ok s.recorded) := by
  have hrun : (Steps.run step initial twoThreads).map
      (fun s => s.returns.map fun r => (r.thread, r.text, s.read r.pointer)) =
      some [(1, some "the first error".toList, some "the first error".toList), (0, some "a second".toList, none)] := by
    decide +kernel
  obtain ⟨s, hs, hreturns⟩ := Option.map_eq_some_iff.1 hrun
  exact ⟨s, hs, hreturns, (handed_out twoThreads s hs).2.2.1⟩

end ErrorSlots

end ShadowsocksOhos
