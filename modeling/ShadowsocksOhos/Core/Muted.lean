/-
Errors as pauses. A stream that hands an error on and is otherwise left as it was goes on as if the answer had been
pending: the rest of a source is the same, and so are the bytes that a sink has accepted. `mute` puts a pause in the place
of every answer of a plan that brings nothing on, an error or a write of zero bytes, and a muted stream is quiet.

- `Source.pollRead_mute`, `Sink.pollWrite_mute`, `Sink.pollDone_mute`: one poll of a muted stream.
- `Silenced`, `Stalled`: how the answers of a muted stream differ.
-/
import ShadowsocksOhos.Core.Polled

namespace Polled

variable {β ε α : Type*}

def ReadAnswer.mute : ReadAnswer ε → ReadAnswer ε
  | .error _ => .pending
  | a => a

def WriteAnswer.mute : WriteAnswer ε → WriteAnswer ε
  | .error _ | .accept 0 => .pending
  | a => a

/-- a pause in the place of an error -/
def Poll.mute : Poll (Except ε α) → Poll (Except ε α)
  | .ready (.error _) => .pending
  | r => r

/-- `b` is `a`, or a pause in the place of an error in `E` -/
def Silenced (E : ε → Prop) (a b : Poll (Except ε α)) : Prop := b = a ∨ b = .pending ∧ ∃ e, E e ∧ a = .ready (.error e)

/-- nothing was written: pending, an error, or zero bytes -/
def Nothing (a : Poll (Except ε ℕ)) : Prop := a = .pending ∨ (∃ e, a = .ready (.error e)) ∨ a = .ready (.ok 0)

/-- `b` is `a` when something was written, or a pause when nothing was -/
def Stalled (a b : Poll (Except ε ℕ)) : Prop := (∃ n, a = .ready (.ok n) ∧ b = a) ∨ b = .pending ∧ Nothing a

theorem stalled_pending : Stalled (.pending : Poll (Except ε ℕ)) .pending := Or.inr ⟨rfl, Or.inl rfl⟩

theorem stalled_error (e : ε) : Stalled (.ready (.error e)) .pending := Or.inr ⟨rfl, Or.inr (Or.inl ⟨e, rfl⟩)⟩

theorem stalled_ok (n : ℕ) : Stalled (.ready (.ok n) : Poll (Except ε ℕ)) (.ready (.ok n)) := Or.inl ⟨n, rfl, rfl⟩

/-! ## Reading -/

namespace Source

/-- the errors that the source answers with -/
def ErrorsIn (s : Source β ε) (E : ε → Prop) : Prop := ∀ n e, s.plan n = .error e → E e

def mute (s : Source β ε) : Source β ε := { s with plan := fun n => (s.plan n).mute }

theorem pollRead_mute (s : Source β ε) (room : ℕ) :
    s.mute.pollRead room = ((s.pollRead room).1.mute, (s.pollRead room).2.mute) := by
  cases h : s.plan 0 <;> simp [pollRead, mute, h, ReadAnswer.mute, Poll.mute]

variable {s s' : Source β ε} {E : ε → Prop} {room : ℕ} {r : Poll (Except ε (List β))}

theorem ErrorsIn.read (h : s.ErrorsIn E) (hp : s.pollRead room = (r, s')) : s'.ErrorsIn E := by
  have hplan : s'.plan = fun n => s.plan (n + 1) := by
    unfold pollRead at hp
    cases h0 : s.plan 0 <;> simp only [h0] at hp <;> cases hp <;> rfl
  intro n e he
  rw [hplan] at he
  exact h (n + 1) e he

theorem ErrorsIn.error (h : s.ErrorsIn E) {e : ε} (hp : s.pollRead room = (.ready (.error e), s')) : E e :=
  h 0 e (pollRead_error hp).2.2

end Source

/-! ## Writing -/

namespace Sink

def mute (s : Sink β ε) : Sink β ε := { s with plan := fun n => (s.plan n).mute }

theorem mute_quiet (s : Sink β ε) : s.mute.Quiet := by
  intro n
  simp only [mute]
  cases s.plan n with
  | pending | error e => simp [WriteAnswer.mute]
  | accept k => cases k <;> simp [WriteAnswer.mute]

@[simp] theorem mute_sent (s : Sink β ε) : s.mute.sent = s.sent := rfl

/-- a muted sink accepts the same bytes -/
theorem pollWrite_mute (s : Sink β ε) (offered : List β) :
    (s.mute.pollWrite offered).2 = (s.pollWrite offered).2.mute ∧
      Stalled (s.pollWrite offered).1 (s.mute.pollWrite offered).1 := by
  cases h : s.plan 0 with
  | pending => simp [pollWrite, mute, h, WriteAnswer.mute, Stalled, Nothing]
  | error e => simp [pollWrite, mute, h, WriteAnswer.mute, Stalled, Nothing]
  | accept n => cases n <;> simp [pollWrite, mute, h, WriteAnswer.mute, Stalled, Nothing]

theorem pollDone_mute (s : Sink β ε) :
    s.mute.pollDone.2 = s.pollDone.2.mute ∧ (s.mute.pollDone.1 = s.pollDone.1 ∨ s.mute.pollDone.1 = .pending) := by
  cases h : s.plan 0 with
  | pending | error e => simp [pollDone, mute, h, WriteAnswer.mute]
  | accept n => cases n <;> simp [pollDone, mute, h, WriteAnswer.mute]

end Sink

end Polled
