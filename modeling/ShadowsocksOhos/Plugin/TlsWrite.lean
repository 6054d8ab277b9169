/-
The upload direction of TLS simple-obfs, frame by frame, over every sequence of calls and every behaviour of the inner
socket.

- `Sends`: draining, in whichever call it goes on, moves bytes from `write_buf` to the socket and nothing else.
- `Framed`: the bytes that the socket has accepted and the rest of `write_buf` are the frames of a list of chunks, each
taken from a buffer that was written; every frame before the last one has been accepted whole.
- `call_tells`: what is accepted is told to the caller later, or owed to it.
- `upload_framing`: over every run.
-/
import ShadowsocksOhos.Plugin.ObfsWrite

namespace ShadowsocksOhos

open Polled

/-! ## Draining -/

namespace WriteHalf

/-- `w'` is `w` with more bytes accepted by the socket -/
structure Sends (w w' : WriteHalf) : Prop where
  wire : w'.wire = w.wire
  firstRequest : w'.firstRequest = w.firstRequest
  sent : w.send.sent <+: w'.send.sent

theorem Sends.trans {a b c : WriteHalf} (h1 : Sends a b) (h2 : Sends b c) : Sends a c :=
  ⟨h2.wire.trans h1.wire, h2.firstRequest.trans h1.firstRequest, h1.sent.trans h2.sent⟩

/-- a drain keeps the wire, so that it is enough to see that the socket takes nothing back -/
theorem Sends.of_drained {w w' : WriteHalf} (h : Drained w w') (hs : w.send.sent <+: w'.send.sent) : Sends w w' :=
  ⟨h.wire, h.firstRequest, hs⟩

/-- one round of the drain takes nothing back -/
theorem drainRound_grows (w : WriteHalf) :
    (∀ w', drainRound w = .inl w' → w.send.sent <+: w'.send.sent) ∧
      ∀ r, drainRound w = .inr r → w.send.sent <+: r.2.send.sent := by
  unfold drainRound
  split_ifs with hoff
  · rcases hp : w.send.pollWrite (w.writeBuf.drop w.writeBufOff) with ⟨_ | e | n, s⟩
    · have hs : s.sent = w.send.sent := Sink.pollWrite_pending hp
      refine ⟨nofun, ?_⟩
      rintro r ⟨⟩
      exact hs ▸ List.prefix_refl _
    · have hs : s.sent = w.send.sent := (Sink.pollWrite_error hp).1
      refine ⟨nofun, ?_⟩
      rintro r ⟨⟩
      exact hs ▸ List.prefix_refl _
    · have hs : w.send.sent <+: s.sent := by
        rw [(Sink.pollWrite_ok hp).1]
        exact List.prefix_append _ _
      by_cases hn : n = 0
      · simp only [hn, if_true]
        refine ⟨nofun, ?_⟩
        rintro r ⟨⟩
        exact hs
      · simp only [hn, if_false]
        refine ⟨?_, nofun⟩
        rintro w' ⟨⟩
        exact hs
  · refine ⟨nofun, ?_⟩
    rintro r ⟨⟩
    exact List.prefix_refl _

theorem drain_sends (w : WriteHalf) : Sends w w.pollDrainWriteBuf.2 := by
  have hgrows : w.send.sent <+: w.pollDrainWriteBuf.2.send.sent := by
    refine Loop.run_rule drainRound_falls (I := fun v => w.send.sent <+: v.send.sent)
      (Q := fun r => w.send.sent <+: r.2.send.sent) ?_ ?_ (List.prefix_refl _)
    · intro v v' hv h
      exact hv.trans ((drainRound_grows v).1 v' h)
    · intro v r hv h
      exact hv.trans ((drainRound_grows v).2 r h)
  exact .of_drained (drain_spec w).1 hgrows

theorem resume_sends (w : WriteHalf) : Sends w w.resume.2 := by
  have hd := drain_sends w
  unfold resume
  rcases h : w.pollDrainWriteBuf with ⟨_ | e | u, v⟩ <;> rw [h] at hd
  · exact hd
  · exact hd
  · exact ⟨hd.wire, hd.firstRequest, hd.sent⟩

theorem drainThenDone_sends (w : WriteHalf) : Sends w w.drainThenDone.2 := by
  have hdone : ∀ v : WriteHalf, Sends v { v with send := v.send.pollDone.2 } := by
    intro v
    refine .of_drained (sent_drained Sink.pollDone_sent Sink.pollDone_quiet) ?_
    simp
  unfold drainThenDone
  split_ifs
  · have hd := drain_sends w
    rcases h : w.pollDrainWriteBuf with ⟨_ | e | u, v⟩ <;> rw [h] at hd
    · exact hd
    · exact hd
    · exact hd.trans (hdone v)
  · exact hdone w

end WriteHalf

/-! ## Frames -/

/-- the buffer that a call offers -/
def Call.buffer : Call → Option (List UInt8)
  | .write buf => some buf
  | _ => none

/-- the buffers passed to `poll_write` -/
def buffers (calls : List Call) : List (List UInt8) := calls.filterMap Call.buffer

/-- the count that a write is answered with, unless it is 0 -/
def countOf : Call × CallAnswer → Option ℕ
  | (.write _, .wrote (.ready (.ok n))) => if n = 0 then none else some n
  | _ => none

/-- the counts that the caller has been told -/
def counts (hist : WriteHist) : List ℕ := hist.filterMap countOf

namespace WriteHalf

section Write

variable {offer : WriteHalf → List UInt8 → Poll (Except IoError ℕ) × WriteHalf} {w : WriteHalf} {buf : List UInt8}

theorem call_idle (h : w.writeBuf = []) : w.call offer (.write buf) = (.wrote (offer w buf).1, (offer w buf).2) := by
  simp only [call, h, List.isEmpty_nil, Bool.not_true, Bool.false_eq_true, if_false]

theorem call_busy (h : w.writeBuf ≠ []) : w.call offer (.write buf) = (.wrote w.resume.1, w.resume.2) := by
  have hne : (!w.writeBuf.isEmpty) = true := by simpa using h
  simp only [call, hne, if_true]

end Write

/-- the count that has been accepted and not been told -/
def owed (w : WriteHalf) : List ℕ := if w.pendingInput = 0 then [] else [w.pendingInput]

/-- an answer tells what was owed, or nothing -/
theorem resume_tells (w : WriteHalf) (buf : List UInt8) :
    (countOf (.write buf, .wrote w.resume.1)).toList ++ w.resume.2.owed = w.owed := by
  have hd := (drain_spec w).1
  unfold resume
  rcases h : w.pollDrainWriteBuf with ⟨_ | e | u, v⟩ <;> rw [h] at hd
  · exact congrArg (fun n => if n = 0 then [] else [n]) hd.pendingInput
  · exact congrArg (fun n => if n = 0 then [] else [n]) hd.pendingInput
  · have hp : v.pendingInput = w.pendingInput := hd.pendingInput
    unfold owed countOf
    dsimp only
    rw [hp, if_pos rfl]
    split_ifs <;> rfl

theorem drainThenDone_owed (w : WriteHalf) : w.drainThenDone.2.owed = w.owed := by
  have hd := (drain_spec w).1
  unfold drainThenDone
  split_ifs
  · rcases h : w.pollDrainWriteBuf with ⟨_ | e | u, v⟩ <;> rw [h] at hd <;>
      exact congrArg (fun n => if n = 0 then [] else [n]) hd.pendingInput
  · rfl

end WriteHalf

namespace TlsObfs

open WriteHalf (Sends wireOf wireOf_snoc frame owed)

/-- a chunk of a buffer: a non-empty prefix of at most 16 KiB -/
def ChunkOf (c buf : List UInt8) : Prop := c ≠ [] ∧ c.length ≤ chunkSize ∧ c <+: buf

/-- the chunk that a call accepts: a write that finds no frame buffered accepts the first 16 KiB of its buffer -/
def acceptedBy (w : WriteHalf) : Call → Option (List UInt8)
  | .write buf => if w.writeBuf = [] ∧ buf ≠ [] then some (buf.take (min buf.length chunkSize)) else none
  | _ => none

theorem acceptedBy_busy {w : WriteHalf} {buf : List UInt8} (h : w.writeBuf ≠ []) : acceptedBy w (.write buf) = none :=
  if_neg fun hand => h hand.1

theorem acceptedBy_idle {w : WriteHalf} {buf : List UInt8} (h : w.writeBuf = []) (hbuf : buf ≠ []) :
    acceptedBy w (.write buf) = some (buf.take (min buf.length chunkSize)) :=
  if_pos ⟨h, hbuf⟩

theorem acceptedBy_nil (w : WriteHalf) : acceptedBy w (.write []) = none :=
  if_neg fun hand => hand.2 rfl

/-- the chunks that are accepted over a run -/
def accepted (rnd : HelloRandom) (o : TlsObfs) : List Call → List (List UInt8)
  | [] => []
  | c :: calls => (acceptedBy o.write c).toList ++ accepted rnd (o.call rnd c).2 calls

/-- the wire is the frames of these chunks, which were taken from buffers of `bufs`, in order -/
structure Framed (rnd : HelloRandom) (server : List Char) (bufs : List (List UInt8)) (w : WriteHalf)
    (chunks : List (List UInt8)) : Prop where
  wire : w.wire = wireOf (framing rnd server) chunks
  first : w.firstRequest = true ↔ chunks = []
  taken : List.SublistForall₂ ChunkOf chunks bufs
  /-- the last frame was not begun before the others had been accepted -/
  whole : wireOf (framing rnd server) chunks.dropLast <+: w.send.sent

variable {rnd : HelloRandom} {server : List Char} {bufs : List (List UInt8)} {w w' : WriteHalf}
  {chunks : List (List UInt8)}

theorem sublistForall₂_snoc {α β : Type*} {R : α → β → Prop} {as : List α} {bs : List β}
    (h : List.SublistForall₂ R as bs) (b : β) :
    List.SublistForall₂ R as (bs ++ [b]) ∧ ∀ a, R a b → List.SublistForall₂ R (as ++ [a]) (bs ++ [b]) := by
  obtain ⟨l, hl, hsub⟩ := List.sublistForall₂_iff.1 h
  constructor
  · exact List.sublistForall₂_iff.2 ⟨l, hl, hsub.trans (List.sublist_append_left _ _)⟩
  · intro a hab
    refine List.sublistForall₂_iff.2 ⟨l ++ [b], ?_, hsub.append (List.Sublist.refl _)⟩
    exact List.rel_append hl (List.Forall₂.cons hab List.Forall₂.nil)

theorem sublistForall₂_mem {α β : Type*} {R : α → β → Prop} {as : List α} {bs : List β}
    (h : List.SublistForall₂ R as bs) {a : α} (ha : a ∈ as) : ∃ b, R a b := by
  induction h with
  | nil => cases ha
  | cons hab _ ih =>
    rcases List.mem_cons.1 ha with rfl | ha
    · exact ⟨_, hab⟩
    · exact ih ha
  | cons_right _ ih => exact ih ha

theorem Framed.sends (h : Framed rnd server bufs w chunks) (hs : Sends w w') : Framed rnd server bufs w' chunks :=
  ⟨hs.wire.trans h.wire, by rw [hs.firstRequest]; exact h.first, h.taken, h.whole.trans hs.sent⟩

/-- a buffer was offered of which no chunk is taken -/
theorem Framed.skip (h : Framed rnd server bufs w chunks) (buf : List UInt8) :
    Framed rnd server (bufs ++ [buf]) w chunks :=
  { h with taken := (sublistForall₂_snoc h.taken buf).1 }

/-- a chunk of a new buffer gets its frame once everything before it has been accepted -/
theorem Framed.accept (h : Framed rnd server bufs w chunks) {c buf : List UInt8} (hb : w.writeBuf = [])
    (hc : ChunkOf c buf) (n : ℕ) :
    Framed rnd server (bufs ++ [buf]) (w.accept (frame (framing rnd server) w c) n).2 (chunks ++ [c]) := by
  have hsent : w.send.sent = w.wire := by simp [WriteHalf.wire, WriteHalf.unsent, hb]
  have hframed : Framed rnd server (bufs ++ [buf]) ⟨w.send, false, frame (framing rnd server) w c, 0, n⟩ (chunks ++ [c]) := by
    refine ⟨?_, by simp, (sublistForall₂_snoc h.taken buf).2 c hc, ?_⟩
    · calc w.send.sent ++ (frame (framing rnd server) w c).drop 0
          = wireOf (framing rnd server) chunks ++ frame (framing rnd server) w c := by
            rw [hsent, h.wire, List.drop_zero]
        _ = wireOf (framing rnd server) (chunks ++ [c]) := (wireOf_snoc _ h.first c).symm
    · rw [List.dropLast_concat, ← h.wire, ← hsent]
  exact hframed.sends (WriteHalf.resume_sends _)

theorem chunkOf_take {buf : List UInt8} (h : buf ≠ []) : ChunkOf (buf.take (min buf.length chunkSize)) buf := by
  have hpos : 0 < buf.length := List.length_pos_of_ne_nil h
  refine ⟨?_, by simp [List.length_take], List.take_prefix _ _⟩
  intro hnil
  have hlen := congrArg List.length hnil
  rw [List.length_take, List.length_nil, chunkSize] at hlen
  omega

/-- `poll_write` of a buffer while no frame is buffered -/
theorem offer_eq (rnd : HelloRandom) (server : List Char) (w : WriteHalf) {buf : List UInt8} (h : buf ≠ []) :
    offer rnd server w buf =
      w.accept (frame (framing rnd server) w (buf.take (min buf.length chunkSize))) (min buf.length chunkSize) := by
  have hframe : (if w.firstRequest then buildClientHello rnd (buf.take (min buf.length chunkSize)) server
      else buildRecord (buf.take (min buf.length chunkSize))) =
      frame (framing rnd server) w (buf.take (min buf.length chunkSize)) := by
    unfold frame
    split_ifs <;> rfl
  have hne : buf.isEmpty = false := by simpa using h
  unfold TlsObfs.offer
  simp only [hne, Bool.false_eq_true, if_false, hframe]

/-- **One call.** -/
theorem Framed.call (h : Framed rnd server bufs w chunks) (c : Call) :
    Framed rnd server (bufs ++ c.buffer.toList) (w.call (TlsObfs.offer rnd server) c).2
      (chunks ++ (acceptedBy w c).toList) := by
  have hdone : ∀ c : Call, c.buffer = none → acceptedBy w c = none →
      (w.call (TlsObfs.offer rnd server) c).2 = w.drainThenDone.2 →
      Framed rnd server (bufs ++ c.buffer.toList) (w.call (TlsObfs.offer rnd server) c).2
        (chunks ++ (acceptedBy w c).toList) := by
    intro c hbuffer haccepted hstate
    rw [hbuffer, haccepted, hstate, Option.toList_none, List.append_nil, List.append_nil]
    exact h.sends (WriteHalf.drainThenDone_sends w)
  cases c with
  | write buf =>
    show Framed rnd server (bufs ++ [buf]) _ _
    by_cases hb : w.writeBuf = []
    · rw [WriteHalf.call_idle hb]
      by_cases hbuf : buf = []
      · subst hbuf
        rw [acceptedBy_nil, Option.toList_none, List.append_nil]
        exact h.skip []
      · rw [acceptedBy_idle hb hbuf, offer_eq rnd server w hbuf]
        exact h.accept hb (chunkOf_take hbuf) _
    · rw [WriteHalf.call_busy hb, acceptedBy_busy hb, Option.toList_none, List.append_nil]
      exact (h.skip buf).sends (WriteHalf.resume_sends w)
  | flush | shutdown => exact hdone _ rfl rfl rfl

/-- **The books of one call.** An accepted chunk is told or owed with its length; any other call tells what was owed, or
nothing. -/
theorem call_tells (rnd : HelloRandom) (server : List Char) (w : WriteHalf) (c : Call) :
    (countOf (c, (w.call (TlsObfs.offer rnd server) c).1)).toList ++ (w.call (TlsObfs.offer rnd server) c).2.owed =
      match acceptedBy w c with
      | some chunk => [chunk.length]
      | none => w.owed := by
  cases c with
  | write buf =>
    by_cases hb : w.writeBuf = []
    · rw [WriteHalf.call_idle hb]
      by_cases hbuf : buf = []
      · subst hbuf
        rw [acceptedBy_nil]
        rfl
      · rw [acceptedBy_idle hb hbuf, offer_eq rnd server w hbuf]
        refine (WriteHalf.resume_tells _ buf).trans ?_
        have hpos : 0 < buf.length := List.length_pos_of_ne_nil hbuf
        have hne : min buf.length chunkSize ≠ 0 := by
          rw [chunkSize]
          omega
        unfold owed
        dsimp only
        rw [if_neg hne, List.length_take, min_eq_left (min_le_left _ _)]
    · rw [WriteHalf.call_busy hb, acceptedBy_busy hb]
      exact WriteHalf.resume_tells w buf
  | flush | shutdown => exact WriteHalf.drainThenDone_owed w

/-! ## Runs -/

theorem framed_new (rnd : HelloRandom) (server : List Char) (plan : ℕ → WriteAnswer IoError) :
    Framed rnd server [] (WriteHalf.new ⟨[], plan⟩) [] :=
  ⟨rfl, by simp [WriteHalf.new], .nil, List.nil_prefix⟩

/-- every run of calls leaves the frames of what it accepts on the wire -/
theorem framed_run (rnd : HelloRandom) (calls : List Call) : ∀ (o : TlsObfs) (bufs chunks : List (List UInt8)),
    Framed rnd o.server bufs o.write chunks →
      Framed rnd o.server (bufs ++ buffers calls) (Answering.run (TlsObfs.call rnd) o calls).2.write
        (chunks ++ accepted rnd o calls) := by
  induction calls with
  | nil =>
    intro o bufs chunks h
    simpa [buffers, accepted, Answering.run] using h
  | cons c calls ih =>
    intro o bufs chunks h
    have hcall := h.call c
    have hnext := ih (o.call rnd c).2 (bufs ++ c.buffer.toList) (chunks ++ (acceptedBy o.write c).toList)
      (by rw [call_eq]; exact hcall)
    have hbufs : buffers (c :: calls) = c.buffer.toList ++ buffers calls := by
      cases c <;> rfl
    have hserver : (o.call rnd c).2.server = o.server := by rw [call_eq]
    rw [hbufs, accepted, ← List.append_assoc, ← List.append_assoc]
    rw [hserver] at hnext
    exact hnext

/-- the lengths that are told and owed over a run are lengths of the chunks, and all of them if no write meets a forgotten
input -/
theorem told_run (rnd : HelloRandom) (calls : List Call) : ∀ (o : TlsObfs) (told : List ℕ) (chunks : List (List UInt8)),
    (told ++ o.write.owed).Sublist (chunks.map List.length) →
      let r := Answering.run (TlsObfs.call rnd) o calls
      (told ++ counts r.1 ++ r.2.write.owed).Sublist ((chunks ++ accepted rnd o calls).map List.length) ∧
      ∀ hist, told ++ o.write.owed = chunks.map List.length →
        Answering.MeetsFrom (TlsObfs.call rnd) (fun _ s c => Unforgotten s.write c) hist o calls →
          told ++ counts r.1 ++ r.2.write.owed = (chunks ++ accepted rnd o calls).map List.length := by
  induction calls with
  | nil =>
    intro o told chunks h
    have hnil : (told ++ counts [] ++ o.write.owed) = told ++ o.write.owed := by simp [counts]
    simp only [Answering.run_nil, accepted, List.append_nil, hnil]
    exact ⟨h, fun _ heq _ => heq⟩
  | cons c calls ih =>
    intro o told chunks h
    have hbooks := call_tells rnd o.server o.write c
    have hstate : (o.call rnd c).2.write = (o.write.call (TlsObfs.offer rnd o.server) c).2 := by rw [call_eq]
    have hanswer : (o.call rnd c).1 = (o.write.call (TlsObfs.offer rnd o.server) c).1 := by rw [call_eq]
    rw [← hstate, ← hanswer] at hbooks
    have hcounts : counts (Answering.run (TlsObfs.call rnd) o (c :: calls)).1 =
        (countOf (c, (o.call rnd c).1)).toList ++ counts (Answering.run (TlsObfs.call rnd) (o.call rnd c).2 calls).1 := by
      simp only [Answering.run, counts, List.filterMap_cons]
      cases countOf (c, (o.call rnd c).1) <;> rfl
    -- what is told and owed after this call
    have hafter : told ++ (countOf (c, (o.call rnd c).1)).toList ++ (o.call rnd c).2.write.owed =
        told ++ match acceptedBy o.write c with
          | some chunk => [chunk.length]
          | none => o.write.owed := by
      rw [List.append_assoc, hbooks]
    obtain ⟨hsub, hall⟩ := ih (o.call rnd c).2 (told ++ (countOf (c, (o.call rnd c).1)).toList)
      (chunks ++ (acceptedBy o.write c).toList) (by
        rw [hafter]
        cases acceptedBy o.write c with
        | none => simpa using h
        | some chunk =>
          rw [List.map_append]
          exact ((List.sublist_append_left _ _).trans h).append (List.Sublist.refl _))
    simp only [accepted, hcounts, ← List.append_assoc] at hsub hall ⊢
    refine ⟨hsub, fun hist heq hmeets => hall _ ?_ hmeets.2⟩
    rw [hafter]
    cases hcase : acceptedBy o.write c with
    | none => simpa using heq
    | some chunk =>
      have hidle : o.write.owed = [] := by
        cases c with
        | write buf =>
          by_cases hb : o.write.writeBuf = []
          · have hzero : o.write.pendingInput = 0 := hmeets.1 hb
            exact if_pos hzero
          · rw [acceptedBy_busy hb] at hcase
            cases hcase
        | flush | shutdown => cases hcase
      rw [hidle, List.append_nil] at heq
      rw [List.map_append, heq]
      rfl

/-- the length field of a record is the length of its chunk -/
theorem buildRecord_length {c : List UInt8} (h : c.length ≤ chunkSize) :
    ∃ hi lo, buildRecord c = [0x17, 0x03, 0x03, hi, lo] ++ c ∧ fromBeBytes hi lo = c.length := by
  obtain ⟨hi, lo, hbe, hlen⟩ := fromBeBytes_toBeBytes c.length (h.trans (by decide))
  refine ⟨hi, lo, ?_, hlen⟩
  unfold buildRecord
  rw [hbe]
  rfl

/-- **The upload framing.** Whatever calls are made, and whatever the inner socket does:
- the bytes it has accepted, followed by the unsent rest of `write_buf`, are nothing if no chunk was accepted, and else the
ClientHello around the first chunk and one record around each later one; every frame but the last has been accepted whole;
- a chunk is accepted by every write of a non-empty buffer that finds no frame buffered; it is a non-empty prefix of that
buffer, of at most 16 KiB, and its record says its length;
- the counts that the caller is told, with the one that is still owed to it, are lengths of chunks in their order; and of all
chunks, if no write meets a forgotten input. -/
theorem upload_framing (rnd : HelloRandom) (server : List Char) (recv : Source UInt8 IoError)
    (plan : ℕ → WriteAnswer IoError) (calls : List Call) :
    let start := new recv ⟨[], plan⟩ server
    let r := Answering.run (TlsObfs.call rnd) start calls
    let w := r.2.write
    let chunks := accepted rnd start calls
    (chunks = [] ∧ w.send.sent ++ w.writeBuf.drop w.writeBufOff = [] ∨
      ∃ c0 cs, chunks = c0 :: cs ∧
        w.send.sent ++ w.writeBuf.drop w.writeBufOff = buildClientHello rnd c0 server ++ cs.flatMap buildRecord ∧
        (∀ c ∈ cs, ∃ hi lo, buildRecord c = [0x17, 0x03, 0x03, hi, lo] ++ c ∧ fromBeBytes hi lo = c.length) ∧
        (cs ≠ [] → buildClientHello rnd c0 server ++ cs.dropLast.flatMap buildRecord <+: w.send.sent)) ∧
    List.SublistForall₂ ChunkOf chunks (buffers calls) ∧
    (counts r.1 ++ w.owed).Sublist (chunks.map List.length) ∧
    (UnforgottenCalls (TlsObfs.call rnd) TlsObfs.write start calls → counts r.1 ++ w.owed = chunks.map List.length) := by
  intro start r w chunks
  have hframed : Framed rnd server (buffers calls) w chunks := framed_run rnd calls start [] [] (framed_new rnd server plan)
  obtain ⟨hwire, -, htaken, hwhole⟩ := hframed
  obtain ⟨hsub, hall⟩ := told_run rnd calls start [] [] (List.Sublist.refl [])
  refine ⟨?_, htaken, hsub, fun hu => hall [] rfl hu⟩
  change w.send.sent ++ w.writeBuf.drop w.writeBufOff = _ at hwire
  generalize chunks = chunks at hwire htaken hwhole ⊢
  cases chunks with
  | nil => exact Or.inl ⟨rfl, hwire⟩
  | cons c0 cs =>
    refine Or.inr ⟨c0, cs, rfl, hwire, fun c hc => ?_, fun hne => ?_⟩
    · obtain ⟨b, hb⟩ := sublistForall₂_mem htaken (List.mem_cons_of_mem c0 hc)
      exact buildRecord_length hb.2.1
    · rw [List.dropLast_cons_of_ne_nil hne] at hwhole
      exact hwhole

/-- the ClientHello goes out in three parts, the second of them in a flush, and then the head of a record -/
def inParts (n : ℕ) : WriteAnswer IoError :=
  if n = 0 then .accept 100 else if n = 2 then .accept 50 else if n = 4 then .accept 4096 else if n = 5 then .accept 3
  else .pending

example :
    let start := new idle ⟨[], inParts⟩ "h".toList
    let calls : List Call := [.write [97, 98], .flush, .write [97, 98], .write [99]]
    let r := Answering.run (TlsObfs.call zeroHello) start calls
    accepted zeroHello start calls = [[97, 98], [99]] ∧ counts r.1 = [2] ∧ r.2.write.owed = [1] ∧
      r.2.write.send.sent = buildClientHello zeroHello [97, 98] "h".toList ++ [0x17, 0x03, 0x03] ∧
      r.2.write.writeBuf.drop r.2.write.writeBufOff = [0, 1, 99] := by
  decide +kernel

end TlsObfs

end ShadowsocksOhos
