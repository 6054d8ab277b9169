/-
The write direction that `HttpObfs` and `TlsObfs` have in common (`obfs.rs`). Both structs carry the same fields
(`first_request`, `write_buf`, `write_buf_off`, `pending_input`) over the inner socket, and the same code for draining,
flushing and shutting down; they differ only in what they do with a buffer offered while `write_buf` is empty.

- `drain`: the loop of `poll_drain_write_buf`, as a `Loop` whose measure is the number of bytes still to send.
- `resume`: the first branch of `poll_write`. A frame from an earlier call is still buffered: finish sending it and
  report the input length that was accepted with it.
- `accept`: frame some input, buffer the frame, start sending it, report the input if all of it went out.
- `wire`: the bytes the peer will have seen once the buffered frame is out. None of the operations here but `accept`
  changes it (`drain_wire`).
-/
import ShadowsocksOhos.Core.Loop
import ShadowsocksOhos.Plugin.Stream

namespace ShadowsocksOhos

open Polled

/-! ## The shared fields -/

structure WriteHalf where
  /-- the write half of the inner socket -/
  send : Sink UInt8 IoError
  firstRequest : Bool
  writeBuf : List UInt8
  writeBufOff : ℕ
  pendingInput : ℕ

namespace WriteHalf

def new (send : Sink UInt8 IoError) : WriteHalf := ⟨send, true, [], 0, 0⟩

/-- the part of `write_buf` that has not been sent -/
def unsent (w : WriteHalf) : List UInt8 := w.writeBuf.drop w.writeBufOff

/-- the bytes delivered to the inner socket, followed by those still buffered -/
def wire (w : WriteHalf) : List UInt8 := w.send.sent ++ w.unsent

/-! ## Draining -/

/-- one round of `while write_buf_off < write_buf.len()` -/
def drainRound (w : WriteHalf) : WriteHalf ⊕ (Poll (Except IoError Unit) × WriteHalf) :=
  if w.writeBufOff < w.writeBuf.length then
    match w.send.pollWrite (w.writeBuf.drop w.writeBufOff) with
    | (.pending, s) => .inr (.pending, { w with send := s })
    | (.ready (.error e), s) => .inr (.ready (.error e), { w with send := s })
    | (.ready (.ok n), s) =>
      if n = 0 then .inr (.ready (.error ⟨.writeZero, "obfs: write zero"⟩), { w with send := s })
      else .inl { w with send := s, writeBufOff := w.writeBufOff + n }
  else .inr (.ready (.ok ()), { w with writeBuf := [], writeBufOff := 0 })

theorem drainRound_falls : Loop.Falls drainRound (fun w => w.writeBuf.length - w.writeBufOff) := by
  intro w w' h
  unfold drainRound at h
  split_ifs at h with hoff
  split at h
  · simp at h
  · simp at h
  · split_ifs at h with hn
    simp only [Sum.inl.injEq] at h
    subst h
    simp only; omega

def pollDrainWriteBuf (w : WriteHalf) : Poll (Except IoError Unit) × WriteHalf :=
  Loop.run drainRound _ drainRound_falls w

/-! ## Polls -/

/-- `poll_write` while a frame is buffered -/
def resume (w : WriteHalf) : Poll (Except IoError ℕ) × WriteHalf :=
  match w.pollDrainWriteBuf with
  | (.pending, w) => (.pending, w)
  | (.ready (.error e), w) => (.ready (.error e), w)
  | (.ready (.ok ()), w) => (.ready (.ok w.pendingInput), { w with pendingInput := 0 })

/-- buffer the frame of `take` bytes of input and start sending it -/
def accept (w : WriteHalf) (framed : List UInt8) (take : ℕ) : Poll (Except IoError ℕ) × WriteHalf :=
  resume { w with firstRequest := false, writeBuf := framed, writeBufOff := 0, pendingInput := take }

/-- `poll_flush` and `poll_shutdown` have one body: drain what is buffered, then poll the inner socket -/
def drainThenDone (w : WriteHalf) : Poll (Except IoError Unit) × WriteHalf :=
  if !w.writeBuf.isEmpty then
    match w.pollDrainWriteBuf with
    | (.pending, w) => (.pending, w)
    | (.ready (.error e), w) => (.ready (.error e), w)
    | (.ready (.ok ()), w) => (w.send.pollDone.1, { w with send := w.send.pollDone.2 })
  else (w.send.pollDone.1, { w with send := w.send.pollDone.2 })

def pollFlush (w : WriteHalf) : Poll (Except IoError Unit) × WriteHalf := w.drainThenDone

def pollShutdown (w : WriteHalf) : Poll (Except IoError Unit) × WriteHalf := w.drainThenDone

/-! ## What draining does -/

/-- `w'` is `w` further along: the same frame, or none left of it, and the same bytes on the wire -/
structure Drained (w w' : WriteHalf) : Prop where
  wire : w'.wire = w.wire
  firstRequest : w'.firstRequest = w.firstRequest
  pendingInput : w'.pendingInput = w.pendingInput
  quiet : w.send.Quiet → w'.send.Quiet
  buf : w'.writeBuf = w.writeBuf ∨ w'.writeBuf = []

theorem Drained.refl (w : WriteHalf) : Drained w w := ⟨rfl, rfl, rfl, id, Or.inl rfl⟩

theorem Drained.trans {a b c : WriteHalf} (h1 : Drained a b) (h2 : Drained b c) : Drained a c := by
  refine ⟨h2.wire.trans h1.wire, h2.firstRequest.trans h1.firstRequest, h2.pendingInput.trans h1.pendingInput,
    fun h => h2.quiet (h1.quiet h), ?_⟩
  rcases h2.buf with h | h
  · rw [h]; exact h1.buf
  · exact Or.inr h

/-- the result of a drain: `Ok` leaves no frame, an error comes from a sink that is not quiet -/
def DrainResult (w : WriteHalf) (r : Poll (Except IoError Unit) × WriteHalf) : Prop :=
  Drained w r.2 ∧ (r.1 = .ready (.ok ()) → r.2.writeBuf = [] ∧ r.2.writeBufOff = 0) ∧
    (w.send.Quiet → ∀ e, r.1 ≠ .ready (.error e)) ∧ (r.1 = .pending → r.2.writeBuf = w.writeBuf)

theorem sent_drained {w : WriteHalf} {s : Sink UInt8 IoError} (hs : s.sent = w.send.sent)
    (hq : w.send.Quiet → s.Quiet) : Drained w { w with send := s } :=
  ⟨by simp [wire, unsent, hs], rfl, rfl, hq, Or.inl rfl⟩

theorem drainRound_spec (w : WriteHalf) :
    match drainRound w with
    | .inl w' => Drained w w' ∧ w'.writeBuf = w.writeBuf
    | .inr r => DrainResult w r := by
  unfold drainRound
  split_ifs with hoff
  · rcases hp : w.send.pollWrite (w.writeBuf.drop w.writeBufOff) with ⟨_ | _ | n, s⟩
    · have hd := sent_drained (Sink.pollWrite_pending hp) (Sink.pollWrite_quiet hp)
      exact ⟨hd, by simp, by simp, fun _ => rfl⟩
    · have hd := sent_drained (Sink.pollWrite_error hp).1 (Sink.pollWrite_quiet hp)
      exact ⟨hd, by simp, fun hq => absurd hp (Sink.pollWrite_no_error hq), by simp⟩
    · obtain ⟨hsent, hle, hpos⟩ := Sink.pollWrite_ok hp
      have hq' := Sink.pollWrite_quiet hp
      have hne : w.writeBuf.drop w.writeBufOff ≠ [] := by
        rw [Ne, List.drop_eq_nil_iff]; omega
      by_cases hn : n = 0
      · simp only [hn, if_true]
        refine ⟨sent_drained (by simpa [hn] using hsent) hq', by simp, fun hq => ?_, by simp⟩
        exact absurd hn (hpos hq hne).ne'
      · simp only [hn, if_false]
        refine ⟨⟨?_, rfl, rfl, hq', Or.inl rfl⟩, trivial⟩
        simp only [wire, unsent, hsent, List.append_assoc, ← List.drop_drop, List.take_append_drop]
  · refine ⟨⟨?_, rfl, rfl, id, Or.inr rfl⟩, fun _ => ⟨rfl, rfl⟩, by simp, by simp⟩
    have : w.unsent = [] := List.drop_eq_nil_of_le (by omega)
    simp only [wire, this]
    simp [unsent]

/-- draining sends the buffered frame and nothing else -/
theorem drain_spec (w : WriteHalf) : DrainResult w w.pollDrainWriteBuf := by
  refine Loop.run_rule drainRound_falls (I := fun v => Drained w v ∧ v.writeBuf = w.writeBuf)
    (Q := DrainResult w) ?_ ?_ ⟨Drained.refl w, rfl⟩
  · intro v v' ⟨hd, hb⟩ h
    have := drainRound_spec v
    rw [h] at this
    exact ⟨hd.trans this.1, this.2.trans hb⟩
  · intro v r ⟨hd, hb⟩ h
    have := drainRound_spec v
    rw [h] at this
    obtain ⟨h1, h2, h3, h4⟩ := this
    exact ⟨hd.trans h1, h2, fun hq => h3 (hd.quiet hq), fun hp => (h4 hp).trans hb⟩

/-- what `resume` answers: the whole frame went out and its input is reported, or it is still buffered -/
theorem resume_spec (w : WriteHalf) (hq : w.send.Quiet) :
    ((w.resume).1 = .ready (.ok w.pendingInput) ∧ (w.resume).2.pendingInput = 0 ∧ (w.resume).2.writeBuf = [] ∧
      (w.resume).2.writeBufOff = 0 ∨
      (w.resume).1 = .pending ∧ (w.resume).2.pendingInput = w.pendingInput ∧ (w.resume).2.writeBuf = w.writeBuf) ∧
    (w.resume).2.wire = w.wire ∧ (w.resume).2.firstRequest = w.firstRequest ∧ (w.resume).2.send.Quiet := by
  obtain ⟨hd, hok, herr, hpend⟩ := drain_spec w
  unfold resume
  rcases h : w.pollDrainWriteBuf with ⟨_ | e | u, v⟩ <;> rw [h] at hd hok herr hpend
  · exact ⟨Or.inr ⟨rfl, hd.pendingInput, hpend rfl⟩, hd.wire, hd.firstRequest, hd.quiet hq⟩
  · exact absurd rfl (herr hq e)
  · obtain ⟨hb, ho⟩ := hok rfl
    refine ⟨Or.inl ⟨by simp [← hd.pendingInput], rfl, hb, ho⟩, ?_, hd.firstRequest, hd.quiet hq⟩
    exact hd.wire

/-- flushing and shutting down send what is buffered and accept nothing -/
theorem drainThenDone_spec (w : WriteHalf) (hq : w.send.Quiet) :
    Drained w (w.drainThenDone).2 ∧ ∀ e, (w.drainThenDone).1 ≠ .ready (.error e) := by
  unfold drainThenDone
  have hdone : ∀ v : WriteHalf, Drained v { v with send := v.send.pollDone.2 } := fun v =>
    sent_drained Sink.pollDone_sent Sink.pollDone_quiet
  split_ifs
  · obtain ⟨hd, hok, herr, hpend⟩ := drain_spec w
    rcases h : w.pollDrainWriteBuf with ⟨_ | e | u, v⟩ <;> rw [h] at hd hok herr hpend
    · exact ⟨hd, by simp⟩
    · exact absurd rfl (herr hq e)
    · exact ⟨hd.trans (hdone v), fun e => Sink.pollDone_no_error (hd.quiet hq)⟩
  · exact ⟨hdone w, fun e => Sink.pollDone_no_error hq⟩

end WriteHalf

end ShadowsocksOhos
