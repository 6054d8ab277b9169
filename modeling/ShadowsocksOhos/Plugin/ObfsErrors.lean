/-
The wrappers of `obfs.rs` on an inner socket that fails. A read or write of the inner socket may fail at any poll, and a
write may take zero bytes; a caller may go on after an error or not.

An error of the inner socket leaves a wrapper as a pending answer would: what was read so far stays in `response_scratch`,
in `len_buf` or in the phase, and what was framed stays in `write_buf`. So a run on a failing socket is, poll for poll, the
run on the muted socket, and what holds of every run on a quiet socket carries over.

- `HttpObfs.pollRead_hushed`, `TlsObfs.pollRead_hushed`: one read.
- `WriteHalf.call_stalled`: one call of the upload direction.
- `read_through_errors`: no error loses, repeats or reorders a byte of the download, and every one is passed on.
- `write_through_errors`: nor of the upload.
-/
import ShadowsocksOhos.Core.Muted
import ShadowsocksOhos.Plugin.ObfsWrite
import ShadowsocksOhos.Plugin.HttpRead

namespace ShadowsocksOhos

open Polled Occurs

/-! ## Reading -/

/-- a wrapper gives `a` where the muted one gives `b` -/
structure Hushed {σ : Type*} (mute : σ → σ) (recv : σ → Source UInt8 IoError) (E : IoError → Prop)
    (a b : Poll (Except IoError (List UInt8)) × σ) : Prop where
  state : b.2 = mute a.2
  answer : Silenced E a.1 b.1
  errors : (recv a.2).ErrorsIn E

/-- `t` is the muted `s` -/
def MutedBy {σ : Type*} (mute : σ → σ) (recv : σ → Source UInt8 IoError) (E : IoError → Prop) (s t : σ) : Prop :=
  t = mute s ∧ (recv s).ErrorsIn E

/-! ### HTTP -/

namespace HttpObfs

def mute (o : HttpObfs) : HttpObfs := { o with recv := o.recv.mute }

variable {E : IoError → Prop} {o : HttpObfs} {room : ℕ}

theorem passthrough_hushed (hE : o.recv.ErrorsIn E) : Hushed mute recv E (o.passthrough room) (o.mute.passthrough room) := by
  unfold passthrough
  rw [show o.mute.recv.pollRead room = _ from Source.pollRead_mute o.recv room]
  refine ⟨rfl, ?_, hE.read rfl⟩
  rcases hp : o.recv.pollRead room with ⟨_ | e | bytes, recv⟩
  · exact Or.inl rfl
  · exact Or.inr ⟨rfl, e, hE.error hp, rfl⟩
  · exact Or.inl rfl

theorem headerDone_hushed (hE : o.recv.ErrorsIn E) (body : List UInt8) :
    Hushed mute recv E (o.headerDone room body) (o.mute.headerDone room body) := by
  unfold headerDone
  have hthen : ∀ o' : HttpObfs, o'.recv = o.recv → Hushed mute recv E
      (if 0 < min body.length room then (.ready (.ok (body.take (min body.length room))), o') else o'.passthrough room)
      (if 0 < min body.length room then (.ready (.ok (body.take (min body.length room))), o'.mute)
        else o'.mute.passthrough room) := by
    intro o' hrecv
    have hE' : o'.recv.ErrorsIn E := hrecv ▸ hE
    split_ifs
    · exact ⟨rfl, Or.inl rfl, hE'⟩
    · exact passthrough_hushed hE'
  by_cases htake : min body.length room < body.length
  · simp only [if_pos htake]
    exact hthen _ rfl
  · simp only [if_neg htake]
    exact hthen _ rfl

/-- a round of the header loop -/
theorem headerRound_hushed (o o' : HttpObfs) (h : MutedBy mute recv E o o') :
    Sum.LiftRel (MutedBy mute recv E) (Hushed mute recv E) (headerRound room o) (headerRound room o') := by
  obtain ⟨rfl, hE⟩ := h
  unfold headerRound
  rw [show o.mute.recv.pollRead headerRead = _ from Source.pollRead_mute o.recv headerRead]
  rcases hp : o.recv.pollRead headerRead with ⟨_ | e | tmp, recv⟩
  · exact .inr ⟨rfl, Or.inl rfl, hE.read hp⟩
  · exact .inr ⟨rfl, Or.inr ⟨rfl, e, hE.error hp, rfl⟩, hE.read hp⟩
  · simp only [Poll.mute]
    by_cases h0 : tmp.length = 0
    · rw [if_pos h0, if_pos h0]
      exact .inr ⟨rfl, Or.inl rfl, hE.read hp⟩
    · rw [if_neg h0, if_neg h0]
      have hscratch : o.mute.responseScratch = o.responseScratch := rfl
      rw [hscratch]
      cases findDoubleCrlf (o.responseScratch ++ tmp) with
      | some idx =>
        exact .inr (headerDone_hushed (o := { o with recv := recv, responseScratch := o.responseScratch ++ tmp })
          (hE.read hp) _)
      | none =>
        dsimp only
        split_ifs
        · exact .inr ⟨rfl, Or.inl rfl, hE.read hp⟩
        · exact .inl ⟨rfl, hE.read hp⟩

theorem advance_mute (o : HttpObfs) (n : ℕ) : o.mute.advance n = (o.advance n).mute := by
  by_cases h : o.leftover.length ≤ o.leftoverOff + n <;> simp [advance, mute, h]

/-- **One read.** -/
theorem pollRead_hushed (hE : o.recv.ErrorsIn E) : Hushed mute recv E (o.pollRead room) (o.mute.pollRead room) := by
  unfold pollRead
  have hoff : o.mute.leftoverOff = o.leftoverOff := rfl
  have hleft : o.mute.leftover = o.leftover := rfl
  have hfirst : o.mute.firstResponse = o.firstResponse := rfl
  rw [hoff, hleft, hfirst]
  split_ifs
  · exact ⟨advance_mute _ _, Or.inl rfl, (advance_recv o _).symm ▸ hE⟩
  · exact Loop.run_sim _ _ (R := MutedBy mute recv E) headerRound_hushed ⟨rfl, hE⟩
  · exact passthrough_hushed hE

end HttpObfs

/-! ### TLS -/

namespace TlsObfs

def mute (o : TlsObfs) : TlsObfs := { o with recv := o.recv.mute }

variable {E : IoError → Prop} {o : TlsObfs} {room : ℕ}

/-- an inner read -/
theorem readInner_hushed (hE : o.recv.ErrorsIn E) (want : ℕ)
    {go : TlsObfs → List UInt8 → TlsObfs ⊕ (Poll (Except IoError (List UInt8)) × TlsObfs)}
    (hgo : ∀ o' tmp, o'.recv.ErrorsIn E →
      Sum.LiftRel (MutedBy mute recv E) (Hushed mute recv E) (go o' tmp) (go o'.mute tmp)) :
    Sum.LiftRel (MutedBy mute recv E) (Hushed mute recv E) (o.readInner want go) (o.mute.readInner want go) := by
  unfold readInner
  rw [show o.mute.recv.pollRead want = _ from Source.pollRead_mute o.recv want]
  rcases hp : o.recv.pollRead want with ⟨_ | e | tmp, recv⟩
  · exact .inr ⟨rfl, Or.inl rfl, hE.read hp⟩
  · exact .inr ⟨rfl, Or.inr ⟨rfl, e, hE.error hp, rfl⟩, hE.read hp⟩
  · simp only [Poll.mute]
    split_ifs
    · exact .inr ⟨rfl, Or.inl rfl, hE.read hp⟩
    · exact hgo { o with recv := recv } tmp (hE.read hp)

/-- a round of the loop of `poll_read` -/
theorem readRound_hushed (o o' : TlsObfs) (h : MutedBy mute recv E o o') :
    Sum.LiftRel (MutedBy mute recv E) (Hushed mute recv E) (readRound room o) (readRound room o') := by
  obtain ⟨rfl, hE⟩ := h
  have hphase : o.mute.readPhase = o.readPhase := rfl
  have hprogress : o.mute.lenProgress = o.lenProgress := rfl
  have hlen : o.mute.lenBuf = o.lenBuf := rfl
  unfold readRound
  rw [hphase]
  cases o.readPhase with
  | discard n =>
    cases n with
    | zero => exact .inl ⟨rfl, hE⟩
    | succ n => exact readInner_hushed hE _ fun o' tmp hE' => .inl ⟨rfl, hE'⟩
  | length =>
    dsimp only
    rw [hprogress, hlen]
    split_ifs
    · exact .inl ⟨rfl, hE⟩
    · exact readInner_hushed hE _ fun o' tmp hE' => .inl ⟨rfl, hE'⟩
  | payload n =>
    cases n with
    | zero => exact .inl ⟨rfl, hE⟩
    | succ n =>
      dsimp only
      split_ifs
      · exact .inr ⟨rfl, Or.inl rfl, hE⟩
      · exact readInner_hushed hE _ fun o' tmp hE' => .inr ⟨rfl, Or.inl rfl, hE'⟩

/-- **One read.** -/
theorem pollRead_hushed (hE : o.recv.ErrorsIn E) : Hushed mute recv E (o.pollRead room) (o.mute.pollRead room) :=
  Loop.run_sim _ _ (R := MutedBy mute recv E) readRound_hushed ⟨rfl, hE⟩

end TlsObfs

/-! ### Runs -/

/-- the polls that were answered with bytes, or with the end -/
def served (hist : ReadHist) : ReadHist :=
  hist.filter fun x =>
    match x.2 with
    | .ready (.ok _) => true
    | _ => false

/-- the answers of a run and of the muted one -/
abbrev Hushes (E : IoError → Prop) : ReadHist → ReadHist → Prop := Answering.Correspond fun _ a b => Silenced E a b

/-- a run is, poll for poll, the run of the muted wrapper -/
theorem readRun_hushed {σ : Type*} {mute : σ → σ} {recv : σ → Source UInt8 IoError} {E : IoError → Prop}
    {pollRead : σ → ℕ → Poll (Except IoError (List UInt8)) × σ}
    (hpoll : ∀ s room, (recv s).ErrorsIn E → Hushed mute recv E (pollRead s room) (pollRead (mute s) room))
    {s : σ} (hE : (recv s).ErrorsIn E) (rooms : List ℕ) :
    Hushes E (Answering.run pollRead s rooms).1 (Answering.run pollRead (mute s) rooms).1 ∧
      (Answering.run pollRead (mute s) rooms).2 = mute (Answering.run pollRead s rooms).2 := by
  have hstep : ∀ s t room, MutedBy mute recv E s t → Silenced E (pollRead s room).1 (pollRead t room).1 ∧
      MutedBy mute recv E (pollRead s room).2 (pollRead t room).2 := by
    rintro s _ room ⟨rfl, hE⟩
    have hh := hpoll s room hE
    exact ⟨hh.answer, hh.state, hh.errors⟩
  obtain ⟨hhist, hstate, -⟩ := Answering.run_sim (A := fun _ a b => Silenced E a b) hstep rooms ⟨rfl, hE⟩
  exact ⟨hhist, hstate⟩

variable {E : IoError → Prop} {hist hist' : ReadHist}

theorem delivered_hushes (h : Hushes E hist hist') : delivered hist = delivered hist' := by
  induction h with
  | nil => rfl
  | @cons x y _ _ hxy _ ih =>
    have hbytes : x.2.bytes = y.2.bytes := by
      rcases hxy.2 with hy | ⟨hy, e, -, hx⟩
      · rw [hy]
      · rw [hy, hx]
        rfl
    unfold delivered at ih ⊢
    rw [List.flatMap_cons, List.flatMap_cons, hbytes, ih]

theorem answers_hushes (h : Hushes E hist hist') {a : Poll (Except IoError (List UInt8))} (ha : Answers hist a) :
    Answers hist' a ∨ ∃ e, E e ∧ a = .ready (.error e) := by
  obtain ⟨x, hx, rfl⟩ := ha
  induction h with
  | nil => cases hx
  | @cons x' y _ _ hxy _ ih =>
    rcases List.mem_cons.1 hx with rfl | hx
    · rcases hxy.2 with hy | ⟨-, he⟩
      · exact Or.inl ⟨y, List.mem_cons_self, hy⟩
      · exact Or.inr he
    · rcases ih hx with ⟨y', hy', he⟩ | he
      · exact Or.inl ⟨y', List.mem_cons_of_mem _ hy', he⟩
      · exact Or.inr he

theorem served_hushes (h : Hushes E hist hist') : (served hist).length ≤ (answered hist').length := by
  induction h with
  | nil => exact le_rfl
  | @cons x y _ _ hxy _ ih =>
    simp only [served, answered, ne_eq, decide_not] at ih ⊢
    rcases hxy.2 with hy | ⟨hy, e, -, hx⟩
    · cases hx : x.2 with
      | pending => simpa [List.filter_cons, hy, hx] using ih
      | ready r => cases r <;> simp [hy, hx] <;> omega
    · simpa [List.filter_cons, hy, hx] using ih

/-- when the muted run never fails, every error is one of the inner socket -/
theorem error_hushes (h : Hushes E hist hist') (hno : ∀ e, ¬ Answers hist' (.ready (.error e))) (e : IoError)
    (he : Answers hist (.ready (.error e))) : E e := by
  rcases answers_hushes h he with he' | ⟨e', hin, heq⟩
  · exact absurd he' (hno e)
  · cases heq
    exact hin

/-- who has seen the end, or was served more often than there are bytes, has everything -/
theorem complete_hushes {body : List UInt8} (h : Hushes E hist hist')
    (hcomplete : Answers hist' (.ready (.ok [])) → delivered hist' = body)
    (hprogress : Answers hist' (.ready (.ok [])) ∨ (answered hist').length ≤ (delivered hist').length)
    (hle : (delivered hist').length ≤ body.length)
    (hor : Answers hist (.ready (.ok [])) ∨ body.length < (served hist).length) : delivered hist = body := by
  rw [delivered_hushes h]
  rcases hor with hz | hlen
  · exact hcomplete ((answers_hushes h hz).resolve_right fun ⟨_, _, he⟩ => nomatch he)
  · rcases hprogress with hz | hp
    · exact hcomplete hz
    · exact absurd (hlen.trans_le ((served_hushes h).trans (hp.trans hle))) (lt_irrefl _)

/-! ### The download -/

theorem muted_plan (plan : ℕ → ReadAnswer IoError) (n : ℕ) (e : IoError) : (plan n).mute ≠ .error e := by
  cases plan n <;> simp [ReadAnswer.mute]

section Download

variable (plan : ℕ → ReadAnswer IoError) (send : Sink UInt8 IoError) (stream : List UInt8) {rooms : List ℕ}

theorem errorsIn_plan : (⟨stream, false, plan⟩ : Source UInt8 IoError).ErrorsIn fun e => ∃ n, plan n = .error e :=
  fun n _ he => ⟨n, he⟩

namespace HttpObfs

/-- the account of a run on a quiet socket -/
theorem bodyInv_run (hrooms : ∀ room ∈ rooms, 0 < room) {i : ℕ} (hi : FirstOccurs crlfCrlf stream i) (hlim : i + 4 ≤ maxHeader)
    (hplan : ∀ n e, plan n ≠ .error e) (host : List Char) (port : UInt16) :
    BodyInv stream i (readRun stream plan send host port rooms).1 (readRun stream plan send host port rooms).2 := by
  refine Answering.run_inv_of_inputs (P := fun room => 0 < room) (I := BodyInv stream i) ?_ ?_ hrooms
  · refine ⟨@readInv_run stream plan hplan send host port [] (by simp), ?_, Or.inr le_rfl, ?_⟩ <;> simp [Answers]
  · exact fun hist o room h hr => bodyInv_step hi hlim h hr

theorem run_hushed (host : List Char) (port : UInt16) (rooms : List ℕ) :
    Hushes (fun e => ∃ n, plan n = .error e) (readRun stream plan send host port rooms).1
        (readRun stream (fun n => (plan n).mute) send host port rooms).1 ∧
      (readRun stream (fun n => (plan n).mute) send host port rooms).2 =
        (readRun stream plan send host port rooms).2.mute :=
  @readRun_hushed HttpObfs mute recv _ pollRead (fun _ _ hs => pollRead_hushed hs) (new ⟨stream, false, plan⟩ send host port)
    (errorsIn_plan plan stream) rooms

theorem download_errors (hrooms : ∀ room ∈ rooms, 0 < room) (host : List Char) (port : UInt16) {i : ℕ}
    (hi : FirstOccurs crlfCrlf stream i) (hlim : i + 4 ≤ 16384) :
    let r := readRun stream plan send host port rooms
    delivered r.1 <+: stream.drop (i + 4) ∧
    (if r.2.firstResponse then delivered r.1 = [] ∧ r.2.responseScratch ++ r.2.recv.rest = stream
      else delivered r.1 ++ r.2.held ++ r.2.recv.rest = stream.drop (i + 4)) ∧
    (Answers r.1 (.ready (.ok [])) ∨ (stream.drop (i + 4)).length < (served r.1).length →
      delivered r.1 = stream.drop (i + 4)) ∧
    (∀ e, Answers r.1 (.ready (.error e)) → ∃ n, plan n = .error e) ∧
    ∀ room, (r.2.pollRead room).1 = .pending → r.2.recv.Waits (r.2.pollRead room).2.recv := by
  intro r
  obtain ⟨hhush, hstate⟩ := run_hushed plan send stream host port rooms
  have hb := bodyInv_run (fun n => (plan n).mute) send stream hrooms hi hlim (muted_plan plan) host port
  have hprefix := hb.inv.stands.prefix_body hi
  refine ⟨delivered_hushes hhush ▸ hprefix, ?_,
    complete_hushes hhush hb.complete hb.progress hprefix.length_le, error_hushes hhush hb.no_error,
    fun room => (pollRead_prompt r.2 room).waits⟩
  have hstands := hb.inv.stands
  rw [hstate, ← delivered_hushes hhush] at hstands
  cases hstands with
  | header hh ho _ =>
    have hfirst : r.2.firstResponse = true := hh.first
    rw [if_pos hfirst]
    exact ⟨ho, hh.read.symm⟩
  | body j hj _ =>
    have hfirst : r.2.firstResponse = false := hj.first
    rw [hfirst, if_neg Bool.false_ne_true, hi.unique hj.found]
    exact hj.body.symm

end HttpObfs

namespace TlsObfs

/-- what has been delivered are the payload bytes of what has been read -/
theorem Follows.delivered_eq {stream out : List UInt8} {o : TlsObfs} (h : Follows stream out o) :
    out = payloadBytes (Place.start.tag (stream.take (bytesRead stream o))) := by
  obtain ⟨read, hf⟩ := h
  have hlen : bytesRead stream o = read.length := by
    have hsum := congrArg List.length hf.stream
    rw [List.length_append] at hsum
    unfold bytesRead
    omega
  have htake : stream.take read.length = read := by rw [hf.stream, List.take_left]
  rw [hlen, htake, hf.out]

theorem run_hushed (server : List Char) (rooms : List ℕ) :
    Hushes (fun e => ∃ n, plan n = .error e) (readRun stream plan send server rooms).1
        (readRun stream (fun n => (plan n).mute) send server rooms).1 ∧
      (readRun stream (fun n => (plan n).mute) send server rooms).2 = (readRun stream plan send server rooms).2.mute :=
  @readRun_hushed TlsObfs mute recv _ pollRead (fun _ _ hs => pollRead_hushed hs) (new ⟨stream, false, plan⟩ send server)
    (errorsIn_plan plan stream) rooms

theorem download_errors (hrooms : ∀ room ∈ rooms, 0 < room) (server : List Char) :
    let r := readRun stream plan send server rooms
    let payload := payloadBytes (Place.start.tag stream)
    delivered r.1 = payloadBytes (Place.start.tag (stream.take (bytesRead stream r.2))) ∧
    (Answers r.1 (.ready (.ok [])) ∨ payload.length < (served r.1).length → delivered r.1 = payload) ∧
    (∀ e, Answers r.1 (.ready (.error e)) → ∃ n, plan n = .error e) ∧
    ∀ room, (r.2.pollRead room).1 = .pending → r.2.recv.Waits (r.2.pollRead room).2.recv := by
  intro r payload
  obtain ⟨hhush, hstate⟩ := run_hushed plan send stream server rooms
  have hinv := readInv_run stream (muted_plan plan) send server hrooms
  refine ⟨?_, complete_hushes hhush hinv.complete hinv.progress hinv.follows.prefix_payload.length_le,
    error_hushes hhush hinv.no_error, fun room => (pollRead_prompt r.2 room).waits⟩
  have hout := hinv.follows.delivered_eq
  rw [hstate, ← delivered_hushes hhush] at hout
  exact hout

end TlsObfs

end Download

/-- **The download on a failing socket.** For every stream, every way the inner socket cuts it into reads, pauses and fails,
and every sequence of caller buffers with room, where the caller goes on after an error:
- HTTP, when the header ends within the first 16384 bytes: what is delivered is a prefix of the body; delivered, held and
unread bytes are together the body as soon as the header is over, and before that what was read of it is kept;
- TLS: what is delivered are the payload bytes among the bytes read so far;
- in both, when the end is answered, or more polls were served than there are bytes to deliver, everything has been
delivered; every error that a poll is answered with is one of the inner socket; and a poll is pending only when the last
read of the inner socket in it was. -/
theorem read_through_errors (plan : ℕ → ReadAnswer IoError) (send : Sink UInt8 IoError) (stream : List UInt8)
    (rooms : List ℕ) (hrooms : ∀ room ∈ rooms, 0 < room) :
    (∀ host port i, FirstOccurs crlfCrlf stream i → i + 4 ≤ 16384 →
      let r := HttpObfs.readRun stream plan send host port rooms
      delivered r.1 <+: stream.drop (i + 4) ∧
      (if r.2.firstResponse then delivered r.1 = [] ∧ r.2.responseScratch ++ r.2.recv.rest = stream
        else delivered r.1 ++ r.2.held ++ r.2.recv.rest = stream.drop (i + 4)) ∧
      (Answers r.1 (.ready (.ok [])) ∨ (stream.drop (i + 4)).length < (served r.1).length →
        delivered r.1 = stream.drop (i + 4)) ∧
      (∀ e, Answers r.1 (.ready (.error e)) → ∃ n, plan n = .error e) ∧
      ∀ room, (r.2.pollRead room).1 = .pending → r.2.recv.Waits (r.2.pollRead room).2.recv) ∧
    ∀ server,
      let r := TlsObfs.readRun stream plan send server rooms
      let payload := TlsObfs.payloadBytes (TlsObfs.Place.start.tag stream)
      delivered r.1 = TlsObfs.payloadBytes (TlsObfs.Place.start.tag (stream.take (TlsObfs.bytesRead stream r.2))) ∧
      (Answers r.1 (.ready (.ok [])) ∨ payload.length < (served r.1).length → delivered r.1 = payload) ∧
      (∀ e, Answers r.1 (.ready (.error e)) → ∃ n, plan n = .error e) ∧
      ∀ room, (r.2.pollRead room).1 = .pending → r.2.recv.Waits (r.2.pollRead room).2.recv :=
  ⟨fun host port _ hi hlim => HttpObfs.download_errors plan send stream hrooms host port hi hlim,
    fun server => TlsObfs.download_errors plan send stream hrooms server⟩

/-- a socket whose every other read is reset -/
def resets (k n : ℕ) : ReadAnswer IoError := if n % 2 = 0 then .error ⟨.other 104, "connection reset"⟩ else .data k

/-- a record with `hi` after an empty first payload -/
def hiStream : List UInt8 := List.replicate 105 7 ++ [0, 0, 23, 3, 3, 0, 2, 104, 105]

/-- resets in the middle of the header and of the body, the end of which comes through the passthrough; and in every phase of
a TLS stream -/
theorem read_through_errors_reset :
    delivered (HttpObfs.readRun [88, 13, 10, 13, 10, 72, 73, 84, 72, 69, 82, 69] (resets 3) ⟨[], fun _ => .pending⟩
      "h".toList 80 (List.replicate 16 1)).1 = [72, 73, 84, 72, 69, 82, 69] ∧
    delivered (TlsObfs.readRun hiStream (resets 63) ⟨[], fun _ => .pending⟩ "h".toList (List.replicate 16 1)).1 =
      [104, 105] := by
  have hrooms : ∀ room ∈ List.replicate 16 1, 0 < room := by decide
  have hhttp := (read_through_errors (resets 3) ⟨[], fun _ => .pending⟩ [88, 13, 10, 13, 10, 72, 73, 84, 72, 69, 82, 69]
    _ hrooms).1 "h".toList 80 1 (by decide) (by decide)
  have htls := (read_through_errors (resets 63) ⟨[], fun _ => .pending⟩ hiStream _ hrooms).2 "h".toList
  exact ⟨hhttp.2.2.1 (Or.inr (by decide +kernel)), (htls.2.1 (Or.inr (by decide +kernel))).trans (by decide +kernel)⟩

/-! ## Writing -/

namespace WriteHalf

def mute (w : WriteHalf) : WriteHalf := { w with send := w.send.mute }

/-- a muted drain does the same, and pauses where the drain fails -/
inductive Paused : Poll (Except IoError Unit) × WriteHalf → Poll (Except IoError Unit) × WriteHalf → Prop
  | done (v : WriteHalf) : Paused (.ready (.ok ()), v) (.ready (.ok ()), v.mute)
  | pending (v : WriteHalf) : Paused (.pending, v) (.pending, v.mute)
  | failed (e : IoError) (v : WriteHalf) : Paused (.ready (.error e), v) (.pending, v.mute)

/-- a round of `poll_drain_write_buf` -/
theorem drainRound_paused (w w' : WriteHalf) (h : w' = w.mute) :
    Sum.LiftRel (fun v v' => v' = mute v) Paused (drainRound w) (drainRound w') := by
  subst h
  unfold drainRound
  rw [show w.mute.writeBufOff = w.writeBufOff from rfl, show w.mute.writeBuf = w.writeBuf from rfl,
    show w.mute.send = w.send.mute from rfl]
  split_ifs with hoff
  · obtain ⟨hstate, hanswer⟩ := Sink.pollWrite_mute w.send (w.writeBuf.drop w.writeBufOff)
    have hpos : ∀ n s, w.send.mute.pollWrite (w.writeBuf.drop w.writeBufOff) = (.ready (.ok n), s) → n ≠ 0 := by
      intro n s hp
      have hne : w.writeBuf.drop w.writeBufOff ≠ [] := by
        rw [Ne, List.drop_eq_nil_iff]
        omega
      exact ((Sink.pollWrite_ok hp).2.2 (Sink.mute_quiet _) hne).ne'
    generalize w.send.mute.pollWrite (w.writeBuf.drop w.writeBufOff) = q at hstate hanswer hpos ⊢
    generalize w.send.pollWrite (w.writeBuf.drop w.writeBufOff) = r at hstate hanswer ⊢
    obtain ⟨a, s⟩ := r
    obtain ⟨b, s'⟩ := q
    cases hstate
    rcases hanswer with ⟨n, rfl, rfl⟩ | ⟨rfl, rfl | ⟨e, rfl⟩ | rfl⟩
    · simp only [if_neg (hpos n _ rfl)]
      exact .inl rfl
    · exact .inr (.pending { w with send := s })
    · exact .inr (.failed e { w with send := s })
    · exact .inr (.failed _ { w with send := s })
  · exact .inr (.done { w with writeBuf := [], writeBufOff := 0 })

theorem drain_paused (w : WriteHalf) : Paused w.pollDrainWriteBuf w.mute.pollDrainWriteBuf :=
  Loop.run_sim _ _ (R := fun v v' => v' = mute v) drainRound_paused rfl

/-- `poll_write` while a frame is buffered -/
theorem resume_stalled (w : WriteHalf) : w.mute.resume.2 = w.resume.2.mute ∧ Stalled w.resume.1 w.mute.resume.1 := by
  have hdrain := drain_paused w
  unfold resume
  generalize w.mute.pollDrainWriteBuf = q at hdrain ⊢
  generalize w.pollDrainWriteBuf = r at hdrain ⊢
  cases hdrain with
  | done v => exact ⟨rfl, stalled_ok _⟩
  | pending v => exact ⟨rfl, stalled_pending⟩
  | failed e v => exact ⟨rfl, stalled_error e⟩

theorem accept_stalled (w : WriteHalf) (framed : List UInt8) (take : ℕ) :
    (w.mute.accept framed take).2 = (w.accept framed take).2.mute ∧
      Stalled (w.accept framed take).1 (w.mute.accept framed take).1 :=
  resume_stalled { w with firstRequest := false, writeBuf := framed, writeBufOff := 0, pendingInput := take }

/-- `poll_flush` and `poll_shutdown` -/
theorem drainThenDone_mute (w : WriteHalf) : w.mute.drainThenDone.2 = w.drainThenDone.2.mute := by
  have hdone : ∀ v : WriteHalf, ({ v.mute with send := v.mute.send.pollDone.2 } : WriteHalf) =
      mute { v with send := v.send.pollDone.2 } :=
    fun v => congrArg (fun s => ({ v with send := s } : WriteHalf)) (Sink.pollDone_mute v.send).1
  have hdrain := drain_paused w
  unfold drainThenDone
  rw [show w.mute.writeBuf = w.writeBuf from rfl]
  split_ifs
  · generalize w.mute.pollDrainWriteBuf = q at hdrain ⊢
    generalize w.pollDrainWriteBuf = r at hdrain ⊢
    cases hdrain with
    | done v => exact hdone v
    | pending v | failed e v => rfl
  · exact hdone w

/-- the answers of a call and of the same call on a muted socket -/
inductive Stalls : Call → CallAnswer → CallAnswer → Prop
  | wrote (buf : List UInt8) {a b : Poll (Except IoError ℕ)} (h : Stalled a b) : Stalls (.write buf) (.wrote a) (.wrote b)
  | flushed (a b : Poll (Except IoError Unit)) : Stalls .flush (.done a) (.done b)
  | shut (a b : Poll (Except IoError Unit)) : Stalls .shutdown (.done a) (.done b)

/-- **One call.** -/
theorem call_stalled {offer : WriteHalf → List UInt8 → Poll (Except IoError ℕ) × WriteHalf}
    (hoffer : ∀ w buf, (offer w.mute buf).2 = (offer w buf).2.mute ∧ Stalled (offer w buf).1 (offer w.mute buf).1)
    (w : WriteHalf) (c : Call) :
    Stalls c (w.call offer c).1 (w.mute.call offer c).1 ∧ (w.mute.call offer c).2 = (w.call offer c).2.mute := by
  cases c with
  | write buf =>
    unfold call
    rw [show w.mute.writeBuf = w.writeBuf from rfl]
    dsimp only
    split_ifs
    · exact ⟨.wrote buf (resume_stalled w).2, (resume_stalled w).1⟩
    · exact ⟨.wrote buf (hoffer w buf).2, (hoffer w buf).1⟩
  | flush => exact ⟨.flushed _ _, drainThenDone_mute w⟩
  | shutdown => exact ⟨.shut _ _, drainThenDone_mute w⟩

end WriteHalf

open WriteHalf (Stalls)

theorem HttpObfs.offer_stalled (rnd : HttpRandom) (host : List Char) (port : UInt16) (w : WriteHalf) (buf : List UInt8) :
    (offer rnd host port w.mute buf).2 = (offer rnd host port w buf).2.mute ∧
      Stalled (offer rnd host port w buf).1 (offer rnd host port w.mute buf).1 := by
  unfold offer
  rw [show w.mute.firstRequest = w.firstRequest from rfl]
  split_ifs
  · exact WriteHalf.accept_stalled w _ _
  · obtain ⟨hstate, hanswer⟩ := Sink.pollWrite_mute w.send buf
    exact ⟨congrArg (fun s => ({ w with send := s } : WriteHalf)) hstate, hanswer⟩

theorem TlsObfs.offer_stalled (rnd : HelloRandom) (server : List Char) (w : WriteHalf) (buf : List UInt8) :
    (offer rnd server w.mute buf).2 = (offer rnd server w buf).2.mute ∧
      Stalled (offer rnd server w buf).1 (offer rnd server w.mute buf).1 := by
  unfold offer
  rw [show w.mute.firstRequest = w.firstRequest from rfl]
  split_ifs
  · exact ⟨rfl, stalled_ok 0⟩
  all_goals exact WriteHalf.accept_stalled w _ _

/-! ### The caller -/

/-- what the last write still has to write, when nothing of it was taken -/
def unserved (left : List UInt8) : Call × CallAnswer → List UInt8
  | (.write buf, .wrote (.ready (.ok n))) => if n = 0 then buf else []
  | (.write buf, _) => buf
  | _ => left

/-- the buffer of the last write, when it was pending, failed or took nothing -/
def unwritten (hist : WriteHist) : List UInt8 := hist.foldl unserved []

/-- a write after one that took nothing starts with the same bytes -/
def Perseveres (hist : WriteHist) : Call → Prop
  | .write buf => unwritten hist <+: buf
  | _ => True

instance (hist : WriteHist) : (c : Call) → Decidable (Perseveres hist c)
  | .write buf => inferInstanceAs (Decidable (unwritten hist <+: buf))
  | .flush => instDecidableTrue
  | .shutdown => instDecidableTrue

/-- the caller is told the same, and the muted run waits for no other bytes -/
theorem told_stalls {hist hist' : WriteHist} (h : Answering.Correspond Stalls hist hist') :
    reported hist = reported hist' ∧ waiting hist' <+: unwritten hist := by
  have hfold : ∀ (t t' : List UInt8 × List UInt8) (u : List UInt8), t.1 = t'.1 → t'.2 <+: u →
      (hist.foldl tell t).1 = (hist'.foldl tell t').1 ∧ (hist'.foldl tell t').2 <+: hist.foldl unserved u := by
    induction h with
    | nil => exact fun t t' u h1 h2 => ⟨h1, h2⟩
    | @cons x y _ _ hxy _ ih =>
      intro t t' u h1 h2
      obtain ⟨c, a⟩ := x
      obtain ⟨c', b⟩ := y
      obtain ⟨rfl, hs⟩ := hxy
      rw [List.foldl_cons, List.foldl_cons, List.foldl_cons]
      apply ih
      · cases hs with
        | wrote buf hst =>
          rcases hst with ⟨n, rfl, rfl⟩ | ⟨rfl, rfl | ⟨e, rfl⟩ | rfl⟩ <;> simp [tell, h1]
        | flushed | shut => exact h1
      · cases hs with
        | wrote buf hst =>
          rcases hst with ⟨n, rfl, rfl⟩ | ⟨rfl, rfl | ⟨e, rfl⟩ | rfl⟩ <;> simp [tell, unserved]
        | flushed | shut => exact h2
  exact hfold ([], []) ([], []) [] rfl List.prefix_rfl

/-! ### The upload -/

/-- the writes of a caller who does not give up -/
def PerseveringCalls {σ : Type*} (step : σ → Call → CallAnswer × σ) (start : σ) (calls : List Call) : Prop :=
  Answering.Meets step (fun hist _ c => Perseveres hist c) start calls

instance {σ : Type*} (step : σ → Call → CallAnswer × σ) (start : σ) (calls : List Call) :
    Decidable (PerseveringCalls step start calls) :=
  inferInstanceAs (Decidable (Answering.Meets _ _ _ _))

open WriteHalf (Framing Accepts Account wireOf)

/-- the chunks on the wire, on a socket that may fail -/
theorem account_errors {σ : Type*} {step : σ → Call → CallAnswer × σ} {write : σ → WriteHalf} {f : Framing}
    {offer : WriteHalf → List UInt8 → Poll (Except IoError ℕ) × WriteHalf} {P : σ → Prop} {start : σ}
    {calls : List Call} {send : Sink UInt8 IoError} (hP : P start)
    (hstep : ∀ s c, P s → P (step s c).2 ∧ (step s c).1 = ((write s).call offer c).1 ∧
      write (step s c).2 = ((write s).call offer c).2)
    (hoffer : ∀ w buf, w.writeBuf = [] → w.pendingInput = 0 → w.send.Quiet → Accepts f w buf (offer w buf))
    (hstall : ∀ w buf, (offer w.mute buf).2 = (offer w buf).2.mute ∧ Stalled (offer w buf).1 (offer w.mute buf).1)
    (hsent : send.sent = []) (hnew : write start = WriteHalf.new send) (hh : PerseveringCalls step start calls)
    (hu : UnforgottenCalls step write start calls) :
    ∃ chunks out, (write (Answering.run step start calls).2).wire = wireOf f chunks ∧ (∀ c ∈ chunks, f.Fits c) ∧
      chunks.flatten = reported (Answering.run step start calls).1 ++ out ∧
      out <+: unwritten (Answering.run step start calls).1 := by
  -- the write half of a wrapper against the muted one
  let R : σ → WriteHalf → Prop := fun s w => P s ∧ w = (write s).mute
  have hsim : ∀ s w c, R s w → Stalls c (step s c).1 (w.call offer c).1 ∧ R (step s c).2 (w.call offer c).2 := by
    rintro s _ c ⟨hs, rfl⟩
    obtain ⟨hs', hanswer, hstate⟩ := hstep s c hs
    obtain ⟨hstalls, hmute⟩ := WriteHalf.call_stalled hstall (write s) c
    exact ⟨hanswer ▸ hstalls, hs', by rw [hmute, hstate]⟩
  have hR : R start (WriteHalf.new send.mute) := ⟨hP, by rw [hnew]; rfl⟩
  obtain ⟨hhist, -, hstate⟩ := Answering.run_sim hsim calls hR
  have hhonest : HonestCalls (WriteHalf.call offer) (WriteHalf.new send.mute) calls := by
    refine Answering.meets_sim (G := fun hist _ c => Honest hist c) hsim (fun h h' s w c hc _ hp => ?_) calls .nil hR hh
    cases c with
    | write buf => exact (told_stalls hc).2.trans hp
    | flush | shutdown => trivial
  have hunforgotten : UnforgottenCalls (WriteHalf.call offer) (fun w => w) (WriteHalf.new send.mute) calls := by
    refine Answering.meets_sim (G := fun _ w c => Unforgotten w c) hsim (fun h h' s w c _ hRw hp => ?_) calls .nil hR hu
    obtain ⟨-, rfl⟩ := hRw
    cases c with
    | write buf => exact hp
    | flush | shutdown => trivial
  have hnew' : Account f [] (WriteHalf.new send.mute) [] := WriteHalf.account_new hsent (Sink.mute_quiet send)
  obtain ⟨chunks, haccount⟩ := account_run (P := fun _ => True) trivial (fun w c _ => ⟨trivial, rfl, rfl⟩) hoffer hnew'
    hhonest hunforgotten
  obtain ⟨hreported, hwaiting⟩ := told_stalls hhist
  have hwire := haccount.wire
  rw [hstate] at hwire
  exact ⟨chunks, _, hwire, haccount.fits, haccount.payload.trans (congrArg (· ++ _) hreported.symm),
    (List.take_prefix _ _).trans hwaiting⟩

/-- **The upload on a failing socket.** Whatever the inner socket does, failing at any poll and taking any number of bytes or
none: over every run of a caller who goes on after an error with the bytes that were not taken, and in which no write meets a
forgotten input, the payload on the wire of either wrapper is exactly what was reported as written, followed by at most one
range of the buffer of a last write that was pending, failed or took nothing. -/
theorem write_through_errors (recv : Source UInt8 IoError) (send : Sink UInt8 IoError) (hsent : send.sent = [])
    (calls : List Call) :
    (∀ rnd host port,
      let start := HttpObfs.new recv send host port
      let r := Answering.run (HttpObfs.call rnd) start calls
      PerseveringCalls (HttpObfs.call rnd) start calls →
        UnforgottenCalls (HttpObfs.call rnd) HttpObfs.write start calls →
          ∃ out, httpPayload host port r.2.write.wire = some (reported r.1 ++ out) ∧ out <+: unwritten r.1) ∧
    ∀ rnd server,
      let start := TlsObfs.new recv send server
      let r := Answering.run (TlsObfs.call rnd) start calls
      PerseveringCalls (TlsObfs.call rnd) start calls →
        UnforgottenCalls (TlsObfs.call rnd) TlsObfs.write start calls →
          ∃ out, TlsObfs.tlsPayload server r.2.write.wire = reported r.1 ++ out ∧ out <+: unwritten r.1 := by
  constructor
  · intro rnd host port start r hh hu
    obtain ⟨chunks, out, hwire, -, hpayload, hout⟩ := account_errors
      (P := fun o : HttpObfs => o.host = host ∧ o.port = port) ⟨rfl, rfl⟩
      (fun o c ⟨h1, h2⟩ => by rw [HttpObfs.call_eq, h1, h2]; exact ⟨⟨rfl, rfl⟩, rfl, rfl⟩)
      (HttpObfs.offer_accepts rnd host port) (HttpObfs.offer_stalled rnd host port) hsent rfl hh hu
    exact ⟨out, by rw [hwire, HttpObfs.httpPayload_wireOf, hpayload], hout⟩
  · intro rnd server start r hh hu
    obtain ⟨chunks, out, hwire, hfits, hpayload, hout⟩ := account_errors
      (P := fun o : TlsObfs => o.server = server) rfl
      (fun o c ho => by rw [TlsObfs.call_eq, ho]; exact ⟨rfl, rfl, rfl⟩)
      (fun w buf hb _ hq => TlsObfs.offer_accepts rnd server w buf hb hq) (TlsObfs.offer_stalled rnd server) hsent rfl hh hu
    exact ⟨out, by rw [hwire, TlsObfs.tlsPayload_wireOf rnd server hfits, hpayload], hout⟩

/-- it fails first, then takes nothing, then everything -/
def brokenPlan (n : ℕ) : WriteAnswer IoError :=
  if n = 0 then .error ⟨.other 11, "try again"⟩ else if n = 1 then .accept 0 else .accept 4096

theorem write_through_errors_retry :
    ∃ out, TlsObfs.tlsPayload "h".toList
        (Answering.run (TlsObfs.call zeroHello) (TlsObfs.new idle ⟨[], brokenPlan⟩ "h".toList)
          [.write [97, 98], .write [97, 98], .write [97, 98, 99], .write [99]]).2.write.wire =
        reported (Answering.run (TlsObfs.call zeroHello) (TlsObfs.new idle ⟨[], brokenPlan⟩ "h".toList)
          [.write [97, 98], .write [97, 98], .write [97, 98, 99], .write [99]]).1 ++ out ∧
      out <+: unwritten (Answering.run (TlsObfs.call zeroHello) (TlsObfs.new idle ⟨[], brokenPlan⟩ "h".toList)
        [.write [97, 98], .write [97, 98], .write [97, 98, 99], .write [99]]).1 :=
  (write_through_errors idle ⟨[], brokenPlan⟩ rfl [.write [97, 98], .write [97, 98], .write [97, 98, 99], .write [99]]).2
    zeroHello "h".toList (by decide +kernel) (by decide +kernel)

end ShadowsocksOhos
