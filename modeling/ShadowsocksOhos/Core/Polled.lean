/-
Polled byte streams. A poll of a stream answers at once: not yet (`pending`), or ready with a result that may be an
error. The two ends modelled here are the ones that a wrapper reads from and writes to:
- `Source`: the bytes that a peer sends, cut into reads by a plan. Each read asks the plan what to do: answer pending,
  fail, or hand out some of the bytes (at least one while there are any and room for it, never more than asked for).
  A read with room that finds no bytes left is the end of the stream, and `ended` records that it was answered.
- `Sink`: the bytes accepted so far. Each write asks the plan: answer pending, fail, or accept a number of bytes of
  what is offered (possibly none). Flushing and shutting down accept nothing.
A plan is any sequence of answers, so a statement for every plan covers every way a stream is cut and every pattern of
back-pressure. `Quiet` plans hold no error.
-/
import Mathlib.Tactic

namespace Polled

/-- the answer of a poll -/
inductive Poll (α : Type*) where
  | pending
  | ready (a : α)
deriving DecidableEq, Repr

variable {β ε : Type*}

/-- the bytes that a read hands over -/
def Poll.bytes : Poll (Except ε (List β)) → List β
  | .ready (.ok bytes) => bytes
  | _ => []

@[simp] theorem Poll.bytes_pending : (Poll.pending : Poll (Except ε (List β))).bytes = [] := rfl

@[simp] theorem Poll.bytes_error (e : ε) : (Poll.ready (.error e) : Poll (Except ε (List β))).bytes = [] := rfl

@[simp] theorem Poll.bytes_ok (b : List β) : (Poll.ready (.ok b) : Poll (Except ε (List β))).bytes = b := rfl

/-! ## Reading -/

/-- what a source does when it is read once more; `data k` hands out up to `k + 1` bytes -/
inductive ReadAnswer (ε : Type*) where
  | pending
  | data (k : ℕ)
  | error (e : ε)
deriving DecidableEq, Repr

structure Source (β ε : Type*) where
  /-- the bytes of the stream that have not been read yet; the stream ends after them -/
  rest : List β
  /-- a read has been answered with the end of the stream -/
  ended : Bool
  /-- the answers to the next reads -/
  plan : ℕ → ReadAnswer ε

namespace Source

/-- one read into a buffer with `room` free places -/
def pollRead (s : Source β ε) (room : ℕ) : Poll (Except ε (List β)) × Source β ε :=
  let plan' := fun n => s.plan (n + 1)
  match s.plan 0 with
  | .pending => (.pending, { s with plan := plan' })
  | .error e => (.ready (.error e), { s with plan := plan' })
  | .data k =>
    let n := min (k + 1) room
    (.ready (.ok (s.rest.take n)),
      ⟨s.rest.drop n, s.ended || (decide (0 < room) && s.rest.isEmpty), plan'⟩)

/-- no read fails -/
def Quiet (s : Source β ε) : Prop := ∀ n e, s.plan n ≠ .error e

variable {s s' : Source β ε} {room : ℕ}

theorem pollRead_pending (h : s.pollRead room = (.pending, s')) : s'.rest = s.rest ∧ s'.ended = s.ended := by
  unfold pollRead at h
  cases hp : s.plan 0 with
  | pending => simp only [hp, Prod.mk.injEq, true_and] at h; subst h; exact ⟨rfl, rfl⟩
  | data k => simp [hp] at h
  | error e => simp [hp] at h

theorem pollRead_error {e : ε} (h : s.pollRead room = (.ready (.error e), s')) :
    s'.rest = s.rest ∧ s'.ended = s.ended ∧ s.plan 0 = .error e := by
  unfold pollRead at h
  cases hp : s.plan 0 with
  | pending => simp [hp] at h
  | data k => simp [hp] at h
  | error e' =>
    simp only [hp, Prod.mk.injEq, Poll.ready.injEq, Except.error.injEq] at h
    obtain ⟨rfl, rfl⟩ := h
    exact ⟨rfl, rfl, rfl⟩

/-- a successful read hands out a prefix of the rest, and nothing only at the end of the stream -/
theorem pollRead_ok {bytes : List β} (h : s.pollRead room = (.ready (.ok bytes), s')) :
    s.rest = bytes ++ s'.rest ∧ bytes.length ≤ room ∧ (s.ended = true → s'.ended = true) ∧
      (0 < room → bytes = [] → s.rest = [] ∧ s'.ended = true) := by
  unfold pollRead at h
  cases hp : s.plan 0 with
  | pending => simp [hp] at h
  | error e => simp [hp] at h
  | data k =>
    simp only [hp, Prod.mk.injEq, Poll.ready.injEq, Except.ok.injEq] at h
    obtain ⟨rfl, rfl⟩ := h
    refine ⟨(List.take_append_drop _ _).symm, by simp, fun he => by simp [he], fun hr hb => ?_⟩
    have hrest : s.rest = [] := by
      rcases List.take_eq_nil_iff.1 hb with h0 | h0
      · omega
      · exact h0
    exact ⟨hrest, by simp [hrest, hr]⟩

theorem pollRead_quiet {r : Poll (Except ε (List β))} (h : s.pollRead room = (r, s')) (hq : s.Quiet) : s'.Quiet := by
  intro n e
  have hs : s' = (s.pollRead room).2 := by rw [h]
  rw [hs]
  unfold pollRead
  cases s.plan 0 <;> exact hq (n + 1) e

theorem pollRead_no_error (hq : s.Quiet) {e : ε} : s.pollRead room ≠ (.ready (.error e), s') :=
  fun h => hq 0 e (pollRead_error h).2.2

/-- the end of the stream is only answered when no byte is left -/
theorem pollRead_ended {r : Poll (Except ε (List β))} (h : s.pollRead room = (r, s'))
    (hs : s.ended = true → s.rest = []) : s'.ended = true → s'.rest = [] := by
  have hs' : s' = (s.pollRead room).2 := by rw [h]
  rw [hs']
  unfold pollRead
  cases s.plan 0 with
  | pending => exact hs
  | error e => exact hs
  | data k =>
    intro h
    simp only [Bool.or_eq_true, Bool.and_eq_true, List.isEmpty_iff] at h
    rcases h with h | h
    · simp [hs h]
    · simp [h.2]

end Source

/-! ## Writing -/

/-- what a sink does when it is polled once more; `accept n` takes up to `n` bytes of what is offered -/
inductive WriteAnswer (ε : Type*) where
  | pending
  | accept (n : ℕ)
  | error (e : ε)
deriving DecidableEq, Repr

structure Sink (β ε : Type*) where
  /-- the bytes accepted so far -/
  sent : List β
  /-- the answers to the next polls -/
  plan : ℕ → WriteAnswer ε

namespace Sink

/-- one write of what is offered -/
def pollWrite (s : Sink β ε) (offered : List β) : Poll (Except ε ℕ) × Sink β ε :=
  let plan' := fun n => s.plan (n + 1)
  match s.plan 0 with
  | .pending => (.pending, { s with plan := plan' })
  | .error e => (.ready (.error e), { s with plan := plan' })
  | .accept n =>
    (.ready (.ok (min n offered.length)), ⟨s.sent ++ offered.take n, plan'⟩)

/-- a flush or a shutdown: nothing is accepted -/
def pollDone (s : Sink β ε) : Poll (Except ε Unit) × Sink β ε :=
  let plan' := fun n => s.plan (n + 1)
  match s.plan 0 with
  | .pending => (.pending, { s with plan := plan' })
  | .error e => (.ready (.error e), { s with plan := plan' })
  | .accept _ => (.ready (.ok ()), { s with plan := plan' })

/-- no poll fails, and a write that is not pending accepts at least one byte of what is offered -/
def Quiet (s : Sink β ε) : Prop := ∀ n, (∀ e, s.plan n ≠ .error e) ∧ s.plan n ≠ .accept 0

variable {s s' : Sink β ε} {offered : List β}

theorem pollWrite_pending (h : s.pollWrite offered = (.pending, s')) : s'.sent = s.sent := by
  unfold pollWrite at h
  cases hp : s.plan 0 with
  | pending => simp only [hp, Prod.mk.injEq, true_and] at h; subst h; rfl
  | accept n => simp [hp] at h
  | error e => simp [hp] at h

theorem pollWrite_error {e : ε} (h : s.pollWrite offered = (.ready (.error e), s')) :
    s'.sent = s.sent ∧ s.plan 0 = .error e := by
  unfold pollWrite at h
  cases hp : s.plan 0 with
  | pending => simp [hp] at h
  | accept n => simp [hp] at h
  | error e' =>
    simp only [hp, Prod.mk.injEq, Poll.ready.injEq, Except.error.injEq] at h
    obtain ⟨rfl, rfl⟩ := h
    exact ⟨rfl, rfl⟩

/-- a successful write accepts exactly the prefix it reports -/
theorem pollWrite_ok {n : ℕ} (h : s.pollWrite offered = (.ready (.ok n), s')) :
    s'.sent = s.sent ++ offered.take n ∧ n ≤ offered.length ∧ (s.Quiet → offered ≠ [] → 0 < n) := by
  unfold pollWrite at h
  cases hp : s.plan 0 with
  | pending => simp [hp] at h
  | error e => simp [hp] at h
  | accept k =>
    simp only [hp, Prod.mk.injEq, Poll.ready.injEq, Except.ok.injEq] at h
    obtain ⟨rfl, rfl⟩ := h
    refine ⟨by simp [List.take_eq_take_iff], by omega, fun hq ho => ?_⟩
    have hk : k ≠ 0 := fun h0 => (hq 0).2 (h0 ▸ hp)
    have : 0 < offered.length := List.length_pos_of_ne_nil ho
    omega

theorem pollWrite_quiet {r : Poll (Except ε ℕ)} (h : s.pollWrite offered = (r, s')) (hq : s.Quiet) : s'.Quiet := by
  intro n
  have hs : s' = (s.pollWrite offered).2 := by rw [h]
  rw [hs]
  unfold pollWrite
  cases s.plan 0 <;> exact hq (n + 1)

theorem pollWrite_no_error (hq : s.Quiet) {e : ε} : s.pollWrite offered ≠ (.ready (.error e), s') :=
  fun h => (hq 0).1 e (pollWrite_error h).2

@[simp] theorem pollDone_sent : (s.pollDone).2.sent = s.sent := by
  unfold pollDone; cases s.plan 0 <;> rfl

theorem pollDone_quiet (hq : s.Quiet) : (s.pollDone).2.Quiet := by
  intro n
  unfold pollDone
  cases s.plan 0 <;> exact hq (n + 1)

theorem pollDone_no_error (hq : s.Quiet) {e : ε} : (s.pollDone).1 ≠ .ready (.error e) := by
  unfold pollDone
  cases hp : s.plan 0 with
  | pending => simp
  | accept n => simp
  | error e' => exact absurd hp ((hq 0).1 e')

end Sink

end Polled
