/-
The upload direction of both wrappers: what a caller is told has been written, against what is on the wire.

A caller polls writes, flushes and shutdowns in any order. After a pending write it still has the same bytes to write,
so its next write starts with them (`Honest`); after `Ready(n)` it goes on after the `n` bytes. `reported` is what it
has been told so far, `waiting` the buffer of a write that is still pending.

- `Accepts`: what one `poll_write` with an empty `write_buf` does to the wire. It either takes a prefix of the buffer
  into one frame, or leaves everything as it was.
- `Account`: the wire is a request or a ClientHello followed by frames, and their contents are what was reported and
  what was accepted from the waiting buffer.
- `exactly_once`: as long as no write finds `write_buf` empty while `pending_input` is still to be reported
  (`Unforgotten`), the payload on the wire is what was reported, and at most one range of the waiting buffer after it.
- `duplicated`: without that condition bytes are sent twice. A flush or a shutdown drains the frame of a pending write
  without reporting its input, and the retry frames the same bytes again.
-/
import ShadowsocksOhos.Core.Answering
import ShadowsocksOhos.Plugin.HttpRequest
import ShadowsocksOhos.Plugin.TlsRead

namespace ShadowsocksOhos

open Polled

/-! ## The caller -/

inductive Call where
  | write (buf : List UInt8)
  | flush
  | shutdown
deriving DecidableEq, Repr

inductive CallAnswer where
  | wrote (r : Poll (Except IoError ℕ))
  | done (r : Poll (Except IoError Unit))
deriving DecidableEq

abbrev WriteHist := List (Call × CallAnswer)

/-- what the caller has been told after one more call: the bytes reported as written, and the buffer of a write that is
still pending -/
def tell (told : List UInt8 × List UInt8) : Call × CallAnswer → List UInt8 × List UInt8
  | (.write buf, .wrote (.ready (.ok n))) => (told.1 ++ buf.take n, [])
  | (.write buf, .wrote .pending) => (told.1, buf)
  | _ => told

/-- the bytes reported as written -/
def reported (hist : WriteHist) : List UInt8 := (hist.foldl tell ([], [])).1

/-- the buffer of the last write, when that was pending -/
def waiting (hist : WriteHist) : List UInt8 := (hist.foldl tell ([], [])).2

/-- a write after a pending one starts with the same bytes -/
def Honest (hist : WriteHist) : Call → Prop
  | .write buf => waiting hist <+: buf
  | _ => True

instance (hist : WriteHist) (c : Call) : Decidable (Honest hist c) := by
  cases c <;> unfold Honest <;> infer_instance

/-- no write finds `write_buf` empty while an accepted input is still to be reported -/
def Unforgotten (w : WriteHalf) : Call → Prop
  | .write _ => w.writeBuf = [] → w.pendingInput = 0
  | _ => True

instance (w : WriteHalf) (c : Call) : Decidable (Unforgotten w c) := by
  cases c <;> unfold Unforgotten <;> infer_instance

/-- the payload on the wire is what was reported, followed by at most one range accepted from the waiting buffer -/
def ExactlyOnce (payload : Option (List UInt8)) (hist : WriteHist) : Prop :=
  ∃ out, payload = some (reported hist ++ out) ∧ out <+: waiting hist

theorem told_snoc (hist : WriteHist) (x : Call × CallAnswer) :
    (reported (hist ++ [x]), waiting (hist ++ [x])) = tell (reported hist, waiting hist) x := by
  simp [reported, waiting]

theorem told_ready (hist : WriteHist) (buf : List UInt8) (n : ℕ) :
    reported (hist ++ [(Call.write buf, CallAnswer.wrote (.ready (.ok n)))]) = reported hist ++ buf.take n ∧
      waiting (hist ++ [(Call.write buf, CallAnswer.wrote (.ready (.ok n)))]) = [] :=
  Prod.mk.inj (told_snoc hist _)

theorem told_pending (hist : WriteHist) (buf : List UInt8) :
    reported (hist ++ [(Call.write buf, CallAnswer.wrote .pending)]) = reported hist ∧
      waiting (hist ++ [(Call.write buf, CallAnswer.wrote .pending)]) = buf :=
  Prod.mk.inj (told_snoc hist _)

theorem told_done (hist : WriteHist) (c : Call) (r : Poll (Except IoError Unit)) :
    reported (hist ++ [(c, CallAnswer.done r)]) = reported hist ∧ waiting (hist ++ [(c, CallAnswer.done r)]) = waiting hist :=
  Prod.mk.inj ((told_snoc hist _).trans (by cases c <;> rfl))

/-! ## The wrappers as machines -/

namespace WriteHalf

/-- one call on a write half that does `offer` with a buffer while no frame is buffered -/
def call (offer : WriteHalf → List UInt8 → Poll (Except IoError ℕ) × WriteHalf) (w : WriteHalf) :
    Call → CallAnswer × WriteHalf
  | .write buf =>
    let r := if !w.writeBuf.isEmpty then w.resume else offer w buf
    (.wrote r.1, r.2)
  | .flush => (.done w.pollFlush.1, w.pollFlush.2)
  | .shutdown => (.done w.pollShutdown.1, w.pollShutdown.2)

/-- how a wrapper frames its chunks: the first one, the later ones, and what every chunk is like -/
structure Framing where
  first : List UInt8 → List UInt8
  next : List UInt8 → List UInt8
  Fits : List UInt8 → Prop

/-- the chunks in their frames -/
def wireOf (f : Framing) : List (List UInt8) → List UInt8
  | [] => []
  | c :: cs => f.first c ++ cs.flatMap f.next

/-- the frame that the next chunk gets -/
def frame (f : Framing) (w : WriteHalf) : List UInt8 → List UInt8 := if w.firstRequest then f.first else f.next

/-- what a `poll_write` with an empty `write_buf` does: nothing, or it takes a prefix of the buffer into a frame -/
inductive Accepts (f : Framing) (w : WriteHalf) (buf : List UInt8)
    (r : Poll (Except IoError ℕ) × WriteHalf) : Prop where
  | nothing (hr : r.1 = .pending ∨ r.1 = .ready (.ok 0)) (hw : r.2.wire = w.wire)
      (hf : r.2.firstRequest = w.firstRequest) (hp : r.2.pendingInput = w.pendingInput) (hq : r.2.send.Quiet)
  | chunk (n : ℕ) (hn : n ≤ buf.length) (hc : f.Fits (buf.take n))
      (hw : r.2.wire = w.wire ++ frame f w (buf.take n))
      (hf : r.2.firstRequest = false) (hq : r.2.send.Quiet)
      (hr : r.1 = .ready (.ok n) ∧ r.2.pendingInput = 0 ∨ r.1 = .pending ∧ r.2.pendingInput = n)

/-- framing a prefix of the buffer and starting to send it -/
theorem accept_accepts {f : Framing} {w : WriteHalf} {buf : List UInt8} {n : ℕ}
    (hb : w.writeBuf = []) (hn : n ≤ buf.length) (hc : f.Fits (buf.take n)) (hq : w.send.Quiet) :
    Accepts f w buf (w.accept (frame f w (buf.take n)) n) := by
  obtain ⟨hr, hw, hf, hq'⟩ := resume_spec ⟨w.send, false, frame f w (buf.take n), 0, n⟩ hq
  refine .chunk n hn hc ?_ hf hq' ?_
  · refine hw.trans ?_
    simp [wire, unsent, hb]
  · rcases hr with ⟨h1, h2, -⟩ | ⟨h1, h2, -⟩
    · exact Or.inl ⟨h1, h2⟩
    · exact Or.inr ⟨h1, h2⟩

/-! ## The account -/

/-- the chunks on the wire are what was reported, and what was accepted of the waiting buffer -/
structure Account (f : Framing) (hist : WriteHist) (w : WriteHalf)
    (chunks : List (List UInt8)) : Prop where
  wire : w.wire = wireOf f chunks
  first : w.firstRequest = true ↔ chunks = []
  payload : chunks.flatten = reported hist ++ (waiting hist).take w.pendingInput
  within : w.pendingInput ≤ (waiting hist).length
  fits : ∀ c ∈ chunks, f.Fits c
  quiet : w.send.Quiet

theorem wireOf_snoc (f : Framing) {w : WriteHalf} {chunks : List (List UInt8)}
    (h : w.firstRequest = true ↔ chunks = []) (c : List UInt8) :
    wireOf f (chunks ++ [c]) = wireOf f chunks ++ frame f w c := by
  cases chunks with
  | nil => simp [wireOf, frame, h.2 rfl]
  | cons d ds => simp [wireOf, frame, show w.firstRequest = false by simpa using mt h.1]

variable {f : Framing} {hist : WriteHist} {w : WriteHalf} {chunks : List (List UInt8)}

/-- a call that only drains, after which the caller has been told what `hist'` says -/
theorem Account.drained {hist' : WriteHist} {w' : WriteHalf} (h : Account f hist w chunks)
    (hw : w'.wire = w.wire) (hf : w'.firstRequest = w.firstRequest) (hq : w'.send.Quiet)
    (hp : reported hist' ++ (waiting hist').take w'.pendingInput = reported hist ++ (waiting hist).take w.pendingInput)
    (hin : w'.pendingInput ≤ (waiting hist').length) : Account f hist' w' chunks :=
  ⟨hw.trans h.wire, by rw [hf]; exact h.first, h.payload.trans hp.symm, hin, h.fits, hq⟩

theorem Account.resume {buf : List UInt8} (h : Account f hist w chunks) (hb : waiting hist <+: buf) :
    Account f (hist ++ [(Call.write buf, CallAnswer.wrote w.resume.1)]) w.resume.2 chunks := by
  obtain ⟨hr, hw, hf, hq⟩ := resume_spec w h.quiet
  have htake : buf.take w.pendingInput = (waiting hist).take w.pendingInput := by
    obtain ⟨t, rfl⟩ := hb
    exact List.take_append_of_le_length h.within
  rcases hr with ⟨h1, h2, -⟩ | ⟨h1, h2, -⟩
  · rw [h1]
    obtain ⟨t1, t2⟩ := told_ready hist buf w.pendingInput
    exact h.drained hw hf hq (by rw [t1, t2, h2, htake]; simp) (by rw [h2]; exact Nat.zero_le _)
  · rw [h1]
    obtain ⟨t1, t2⟩ := told_pending hist buf
    exact h.drained hw hf hq (by rw [t1, t2, h2, htake]) (by rw [t2, h2]; exact h.within.trans hb.length_le)

theorem Account.offer {buf : List UInt8} {r : Poll (Except IoError ℕ) × WriteHalf}
    (h : Account f hist w chunks) (hp : w.pendingInput = 0) (ha : Accepts f w buf r) :
    ∃ chunks', Account f (hist ++ [(Call.write buf, CallAnswer.wrote r.1)]) r.2 chunks' := by
  have hpay : chunks.flatten = reported hist := by simpa [hp] using h.payload
  cases ha with
  | nothing hr hw hf hp' hq =>
    refine ⟨chunks, h.drained hw hf hq ?_ (by rw [hp', hp]; exact Nat.zero_le _)⟩
    rcases hr with hr | hr <;> rw [hr, hp', hp]
    · simp [(told_pending hist buf).1]
    · simp [(told_ready hist buf 0).1]
  | chunk n hn hc hw hf hq hr =>
    refine ⟨chunks ++ [buf.take n], ?_, by simp [hf], ?_, ?_, fun c hm => ?_, hq⟩
    · rw [hw, h.wire, wireOf_snoc f h.first]
    · rw [List.flatten_append, hpay, List.flatten_singleton]
      rcases hr with ⟨hr, hp'⟩ | ⟨hr, hp'⟩ <;> rw [hr, hp']
      · simp [(told_ready hist buf n).1]
      · simp [(told_pending hist buf).1, (told_pending hist buf).2]
    · rcases hr with ⟨hr, hp'⟩ | ⟨hr, hp'⟩ <;> rw [hr, hp']
      · exact Nat.zero_le _
      · rw [(told_pending hist buf).2]; exact hn
    · rcases List.mem_append.1 hm with hm | hm
      · exact h.fits c hm
      · exact List.mem_singleton.1 hm ▸ hc

theorem Account.done {w' : WriteHalf} (h : Account f hist w chunks) (hd : Drained w w') (c : Call)
    (r : Poll (Except IoError Unit)) : Account f (hist ++ [(c, CallAnswer.done r)]) w' chunks := by
  obtain ⟨t1, t2⟩ := told_done hist c r
  exact h.drained hd.wire hd.firstRequest (hd.quiet h.quiet) (by rw [t1, t2, hd.pendingInput])
    (by rw [t2, hd.pendingInput]; exact h.within)

/-- **One call.** An honest call that does not meet a forgotten input keeps the account. -/
theorem Account.call {offer : WriteHalf → List UInt8 → Poll (Except IoError ℕ) × WriteHalf} {c : Call}
    (hoffer : ∀ w buf, w.writeBuf = [] → w.pendingInput = 0 → w.send.Quiet → Accepts f w buf (offer w buf))
    (h : Account f hist w chunks) (hh : Honest hist c) (hu : Unforgotten w c) :
    ∃ chunks', Account f (hist ++ [(c, (w.call offer c).1)]) (w.call offer c).2 chunks' := by
  cases c with
  | write buf =>
    by_cases hb : w.writeBuf = []
    · simp only [WriteHalf.call, hb, List.isEmpty_nil, Bool.not_true, Bool.false_eq_true, if_false]
      exact h.offer (hu hb) (hoffer w buf hb (hu hb) h.quiet)
    · have hne : (!w.writeBuf.isEmpty) = true := by simpa using hb
      simp only [WriteHalf.call, hne, if_true]
      exact ⟨chunks, h.resume hh⟩
  | flush => exact ⟨chunks, h.done (drainThenDone_spec w h.quiet).1 _ _⟩
  | shutdown => exact ⟨chunks, h.done (drainThenDone_spec w h.quiet).1 _ _⟩

theorem account_new {send : Sink UInt8 IoError} (hs : send.sent = []) (hq : send.Quiet) :
    Account f [] (new send) [] :=
  ⟨by simp [WriteHalf.wire, unsent, new, hs, wireOf], by simp [new], by simp [reported, waiting, new],
    by simp [new], by simp, hq⟩

end WriteHalf

open WriteHalf (Framing Accepts Account wireOf)

/-! ### HTTP -/

namespace HttpObfs

def call (rnd : HttpRandom) (o : HttpObfs) : Call → CallAnswer × HttpObfs
  | .write buf => (.wrote (o.pollWrite rnd buf).1, (o.pollWrite rnd buf).2)
  | .flush => (.done o.pollFlush.1, o.pollFlush.2)
  | .shutdown => (.done o.pollShutdown.1, o.pollShutdown.2)

/-- a call of the wrapper is a call of its write half -/
theorem call_eq (rnd : HttpRandom) (o : HttpObfs) (c : Call) :
    o.call rnd c = ((o.write.call (offer rnd o.host o.port) c).1,
      { o with write := (o.write.call (offer rnd o.host o.port) c).2 }) := by
  cases c <;> rfl

/-- the request around the first chunk, nothing around the later ones -/
def framing (rnd : HttpRandom) (host : List Char) (port : UInt16) : Framing :=
  ⟨buildHttpRequest rnd host port, id, fun _ => True⟩

theorem offer_accepts (rnd : HttpRandom) (host : List Char) (port : UInt16) (w : WriteHalf) (buf : List UInt8)
    (hb : w.writeBuf = []) (hp : w.pendingInput = 0) (hq : w.send.Quiet) :
    Accepts (framing rnd host port) w buf (offer rnd host port w buf) := by
  unfold offer
  by_cases hf : w.firstRequest
  · rw [if_pos hf]
    have := WriteHalf.accept_accepts (f := framing rnd host port) hb (le_refl buf.length) trivial hq
    simpa [WriteHalf.frame, hf, framing] using this
  · rw [if_neg hf]
    rcases hs : w.send.pollWrite buf with ⟨_ | e | n, s⟩
    · have hsent := Sink.pollWrite_pending hs
      exact .nothing (Or.inl rfl) (by simp [WriteHalf.wire, WriteHalf.unsent, hsent]) rfl rfl (Sink.pollWrite_quiet hs hq)
    · exact absurd hs (Sink.pollWrite_no_error hq)
    · obtain ⟨hsent, hle, -⟩ := Sink.pollWrite_ok hs
      refine .chunk n hle trivial ?_ (by simpa using hf) (Sink.pollWrite_quiet hs hq) (Or.inl ⟨rfl, hp⟩)
      simp [WriteHalf.wire, WriteHalf.unsent, hsent, hb, WriteHalf.frame, hf, framing]

theorem httpPayload_wireOf (rnd : HttpRandom) (host : List Char) (port : UInt16) (chunks : List (List UInt8)) :
    httpPayload host port (wireOf (framing rnd host port) chunks) = some chunks.flatten := by
  cases chunks with
  | nil => rfl
  | cons c cs =>
    show httpPayload host port (buildHttpRequest rnd host port c ++ cs.flatMap id) = _
    rw [httpPayload_request, List.flatMap_id, List.flatten_cons]

end HttpObfs

/-! ### TLS -/

namespace TlsObfs

def call (rnd : HelloRandom) (o : TlsObfs) : Call → CallAnswer × TlsObfs
  | .write buf => (.wrote (o.pollWrite rnd buf).1, (o.pollWrite rnd buf).2)
  | .flush => (.done o.pollFlush.1, o.pollFlush.2)
  | .shutdown => (.done o.pollShutdown.1, o.pollShutdown.2)

theorem call_eq (rnd : HelloRandom) (o : TlsObfs) (c : Call) :
    o.call rnd c = ((o.write.call (offer rnd o.server) c).1,
      { o with write := (o.write.call (offer rnd o.server) c).2 }) := by
  cases c <;> rfl

/-- the ClientHello around the first chunk, a record around each later one -/
def framing (rnd : HelloRandom) (server : List Char) : Framing :=
  ⟨fun c => buildClientHello rnd c server, buildRecord, fun c => c ≠ [] ∧ c.length ≤ chunkSize⟩

theorem offer_accepts (rnd : HelloRandom) (server : List Char) (w : WriteHalf) (buf : List UInt8)
    (hb : w.writeBuf = []) (hq : w.send.Quiet) : Accepts (framing rnd server) w buf (offer rnd server w buf) := by
  unfold offer
  by_cases hbuf : buf = []
  · subst hbuf
    exact .nothing (Or.inr rfl) rfl rfl rfl hq
  · have hne : buf.isEmpty = false := by simpa using hbuf
    rw [hne]
    have hpos := List.length_pos_of_ne_nil hbuf
    have hfits : (framing rnd server).Fits (buf.take (min buf.length chunkSize)) := by
      refine ⟨fun h => ?_, by simp [List.length_take]⟩
      have := congrArg List.length h
      rw [List.length_take, List.length_nil, chunkSize] at this
      omega
    have := WriteHalf.accept_accepts hb (min_le_left buf.length chunkSize) hfits hq
    by_cases hf : w.firstRequest <;> simpa [WriteHalf.frame, hf, framing] using this

/-! What a server takes off the wire: the session ticket of the ClientHello and the records after it. -/

/-- the ClientHello up to the length field of the session ticket -/
def helloHead (rnd : HelloRandom) (dataLen serverLen : UInt16) : List UInt8 :=
  [0x16, 0x03, 0x01] ++ toBeBytes (212 + dataLen + serverLen) ++
  [0x01, 0x00] ++ toBeBytes (208 + dataLen + serverLen) ++
  [0x03, 0x03] ++ toBeBytes32 rnd.now ++ rnd.random.toList ++ [32] ++ rnd.sessionId.toList ++
  [0x00, 0x38] ++ cipherSuites ++ [0x01, 0x00] ++
  toBeBytes (79 + dataLen + serverLen) ++ [0x00, 0x23]

/-- the ClientHello after the session ticket -/
def helloTail (server : List Char) : List UInt8 :=
  let serverLen := UInt16.ofNat (asBytes server).length
  [0x00, 0x00] ++ toBeBytes (serverLen + 5) ++ toBeBytes (serverLen + 3) ++ [0x00] ++ toBeBytes serverLen ++
    asBytes server ++
  [0x00, 0x0b, 0x00, 0x04, 0x03, 0x01, 0x00, 0x02] ++
  [0x00, 0x0a, 0x00, 0x0a, 0x00, 0x08, 0x00, 0x1d, 0x00, 0x17, 0x00, 0x19, 0x00, 0x18] ++
  signatureAlgorithms ++ [0x00, 0x16, 0x00, 0x00] ++ [0x00, 0x17, 0x00, 0x00]

theorem buildClientHello_eq (rnd : HelloRandom) (data : List UInt8) (server : List Char) :
    buildClientHello rnd data server =
      helloHead rnd (UInt16.ofNat data.length) (UInt16.ofNat (asBytes server).length) ++
        (toBeBytes (UInt16.ofNat data.length) ++ (data ++ helloTail server)) := by
  unfold buildClientHello helloHead helloTail
  dsimp only
  generalize UInt16.ofNat (asBytes server).length = serverLen
  generalize UInt16.ofNat data.length = dataLen
  simp only [List.append_assoc]

theorem helloHead_length (rnd : HelloRandom) (dataLen serverLen : UInt16) :
    (helloHead rnd dataLen serverLen).length = 140 := by
  simp [helloHead, toBeBytes, toBeBytes32, cipherSuites]

theorem helloTail_length (server : List Char) : (helloTail server).length = 75 + (asBytes server).length := by
  have hsig : signatureAlgorithms.length = 36 := rfl
  have hbe : ∀ n, (toBeBytes n).length = 2 := fun _ => rfl
  simp only [helloTail, List.length_append, List.length_cons, List.length_nil, hbe, hsig]
  ring

def tlsPayload (server : List Char) (wire : List UInt8) : List UInt8 :=
  if wire = [] then []
  else
    let dataLen := fromBeBytes (wire.getD 140 0) (wire.getD 141 0)
    (wire.drop 142).take dataLen ++
      payloadBytes ((Place.skipFrom recordHeaderDiscard).tag (wire.drop (217 + dataLen + (asBytes server).length)))

/-- the records that a later chunk becomes are records in the sense of the download direction -/
def recordOf (c : List UInt8) (h : c.length ≤ chunkSize) : Record :=
  ⟨#v[0x17, 0x03, 0x03], c, le_trans h (by decide)⟩

theorem payloadBytes_records {cs : List (List UInt8)} (h : ∀ c ∈ cs, c.length ≤ chunkSize) :
    payloadBytes ((Place.skipFrom recordHeaderDiscard).tag (cs.flatMap buildRecord)) = cs.flatten := by
  obtain ⟨records, hwire, hpay⟩ : ∃ records : List Record,
      cs.flatMap buildRecord = (records.flatMap Record.marked).map Prod.fst ∧
        cs.flatten = records.flatMap fun r => r.payload.bytes := by
    induction cs with
    | nil => exact ⟨[], rfl, rfl⟩
    | cons c cs ih =>
      obtain ⟨records, h1, h2⟩ := ih fun d hd => h d (List.mem_cons_of_mem _ hd)
      refine ⟨recordOf c (h c List.mem_cons_self) :: records, ?_, ?_⟩
      · rw [List.flatMap_cons, List.flatMap_cons, List.map_append, h1]
        congr 1
        simp [recordOf, Record.marked, Payload.marked, buildRecord]
      · rw [List.flatten_cons, List.flatMap_cons, h2]
        rfl
  rw [hwire, tag_records, payloadBytes_flatMap, hpay]

theorem tlsPayload_wireOf (rnd : HelloRandom) (server : List Char) {chunks : List (List UInt8)}
    (h : ∀ c ∈ chunks, c ≠ [] ∧ c.length ≤ chunkSize) :
    tlsPayload server (wireOf (framing rnd server) chunks) = chunks.flatten := by
  cases chunks with
  | nil => rfl
  | cons c cs =>
    obtain ⟨hi, lo, hbe, hlen⟩ := fromBeBytes_toBeBytes c.length (le_trans (h c List.mem_cons_self).2 (by decide))
    have hrec := payloadBytes_records fun d hd => (h d (List.mem_cons_of_mem _ hd)).2
    show tlsPayload server (buildClientHello rnd c server ++ cs.flatMap buildRecord) = _
    rw [buildClientHello_eq, hbe]
    have hhead := helloHead_length rnd (UInt16.ofNat c.length) (UInt16.ofNat (asBytes server).length)
    have htail := helloTail_length server
    generalize helloHead rnd _ _ = head at hhead
    generalize helloTail server = tail at htail
    generalize cs.flatMap buildRecord = recs at hrec
    have hshape : head ++ ([hi, lo] ++ (c ++ tail)) ++ recs = (head ++ [hi, lo]) ++ (c ++ (tail ++ recs)) := by
      simp only [List.append_assoc]
    have hshape' : head ++ ([hi, lo] ++ (c ++ tail)) ++ recs = (head ++ [hi, lo] ++ c ++ tail) ++ recs := by
      simp only [List.append_assoc]
    have hhi : (head ++ ([hi, lo] ++ (c ++ tail)) ++ recs).getD 140 0 = hi := by
      rw [List.getD_eq_getElem?_getD, List.append_assoc, List.getElem?_append_right (by omega), hhead]
      rfl
    have hlo : (head ++ ([hi, lo] ++ (c ++ tail)) ++ recs).getD 141 0 = lo := by
      rw [List.getD_eq_getElem?_getD, List.append_assoc, List.getElem?_append_right (by omega), hhead]
      rfl
    have hne : head ++ ([hi, lo] ++ (c ++ tail)) ++ recs ≠ [] := by simp
    simp only [tlsPayload, if_neg hne, hhi, hlo, hlen]
    have hticket : (head ++ ([hi, lo] ++ (c ++ tail)) ++ recs).drop 142 = c ++ (tail ++ recs) := by
      rw [hshape]
      exact List.drop_left' (by simp [hhead])
    have hrecs : (head ++ ([hi, lo] ++ (c ++ tail)) ++ recs).drop (217 + c.length + (asBytes server).length) = recs := by
      rw [hshape']
      refine List.drop_left' ?_
      simp only [List.length_append, hhead, htail, List.length_cons, List.length_nil]
      ring
    rw [hticket, hrecs, List.take_left, hrec, List.flatten_cons]

end TlsObfs

/-! ## Exactly once -/

/-- calls of a caller who keeps to the contract of a writer -/
def HonestCalls {σ : Type*} (step : σ → Call → CallAnswer × σ) (start : σ) (calls : List Call) : Prop :=
  Answering.Meets step (fun hist _ c => Honest hist c) start calls

/-- no write of the run meets a forgotten input -/
def UnforgottenCalls {σ : Type*} (step : σ → Call → CallAnswer × σ) (write : σ → WriteHalf) (start : σ)
    (calls : List Call) : Prop :=
  Answering.Meets step (fun _ s c => Unforgotten (write s) c) start calls

instance {σ : Type*} (step : σ → Call → CallAnswer × σ) (start : σ) (calls : List Call) :
    Decidable (HonestCalls step start calls) :=
  inferInstanceAs (Decidable (Answering.Meets _ _ _ _))

instance {σ : Type*} (step : σ → Call → CallAnswer × σ) (write : σ → WriteHalf) (start : σ) (calls : List Call) :
    Decidable (UnforgottenCalls step write start calls) :=
  inferInstanceAs (Decidable (Answering.Meets _ _ _ _))

/-- a machine whose calls are calls of a write half keeps the account over every run -/
theorem account_run {σ : Type*} {step : σ → Call → CallAnswer × σ} {write : σ → WriteHalf} {f : Framing}
    {offer : WriteHalf → List UInt8 → Poll (Except IoError ℕ) × WriteHalf} {P : σ → Prop} {start : σ}
    {calls : List Call} (hP : P start)
    (hstep : ∀ s c, P s → P (step s c).2 ∧ (step s c).1 = ((write s).call offer c).1 ∧
      write (step s c).2 = ((write s).call offer c).2)
    (hoffer : ∀ w buf, w.writeBuf = [] → w.pendingInput = 0 → w.send.Quiet → Accepts f w buf (offer w buf))
    (hnew : Account f [] (write start) []) (hh : HonestCalls step start calls)
    (hu : UnforgottenCalls step write start calls) :
    ∃ chunks, Account f (Answering.run step start calls).1 (write (Answering.run step start calls).2) chunks := by
  have hrun := Answering.run_inv
    (I := fun hist s => P s ∧ ∃ chunks, Account f hist (write s) chunks) ⟨hP, [], hnew⟩ ?_
    (Answering.Meets.and hh hu)
  · exact hrun.2
  · rintro hist s c ⟨hs, chunks, ha⟩ ⟨hhon, hunf⟩
    obtain ⟨hs', h1, h2⟩ := hstep s c hs
    rw [h1, h2]
    exact ⟨hs', ha.call hoffer hhon hunf⟩

/-- the payload decoded from the wire of an account is accounted for -/
theorem exactlyOnce_of_account {f : Framing} {hist : WriteHist} {w : WriteHalf} {chunks : List (List UInt8)}
    (h : Account f hist w chunks) {payload : Option (List UInt8)} (hp : payload = some chunks.flatten) :
    ExactlyOnce payload hist :=
  ⟨(waiting hist).take w.pendingInput, by rw [hp, h.payload], List.take_prefix _ _⟩

/-- **The upload direction.** Over every run of honest calls in which no write meets a forgotten input, on a socket that
never fails, the payload on the wire of either wrapper is exactly what was reported as written, followed by at most one
range that was accepted from the buffer of a write still pending. -/
theorem exactly_once (recv : Source UInt8 IoError) (send : Sink UInt8 IoError) (hsent : send.sent = [])
    (hquiet : send.Quiet) (calls : List Call) :
    (∀ rnd host port,
      let start := HttpObfs.new recv send host port
      let r := Answering.run (HttpObfs.call rnd) start calls
      HonestCalls (HttpObfs.call rnd) start calls →
        UnforgottenCalls (HttpObfs.call rnd) HttpObfs.write start calls →
          ExactlyOnce (httpPayload host port r.2.write.wire) r.1) ∧
    ∀ rnd server,
      let start := TlsObfs.new recv send server
      let r := Answering.run (TlsObfs.call rnd) start calls
      HonestCalls (TlsObfs.call rnd) start calls →
        UnforgottenCalls (TlsObfs.call rnd) TlsObfs.write start calls →
          ExactlyOnce (some (TlsObfs.tlsPayload server r.2.write.wire)) r.1 := by
  constructor
  · intro rnd host port start r hh hu
    obtain ⟨chunks, ha⟩ := account_run (P := fun o : HttpObfs => o.host = host ∧ o.port = port) ⟨rfl, rfl⟩
      (fun o c ⟨h1, h2⟩ => by rw [HttpObfs.call_eq, h1, h2]; exact ⟨⟨rfl, rfl⟩, rfl, rfl⟩)
      (HttpObfs.offer_accepts rnd host port) (WriteHalf.account_new hsent hquiet) hh hu
    exact exactlyOnce_of_account ha (by rw [ha.wire, HttpObfs.httpPayload_wireOf])
  · intro rnd server start r hh hu
    obtain ⟨chunks, ha⟩ := account_run (P := fun o : TlsObfs => o.server = server) rfl
      (fun o c ho => by rw [TlsObfs.call_eq, ho]; exact ⟨rfl, rfl, rfl⟩)
      (fun w buf hb _ hq => TlsObfs.offer_accepts rnd server w buf hb hq) (WriteHalf.account_new hsent hquiet) hh hu
    exact exactlyOnce_of_account ha (by rw [ha.wire, TlsObfs.tlsPayload_wireOf rnd server ha.fits])

/-! A socket that is not ready at first, and takes everything from then on. -/

def slowPlan (n : ℕ) : WriteAnswer IoError := if n = 0 then .pending else .accept 4096

theorem slowPlan_quiet : (⟨[], slowPlan⟩ : Sink UInt8 IoError).Quiet := fun n => by
  show (∀ e, slowPlan n ≠ .error e) ∧ slowPlan n ≠ .accept 0
  unfold slowPlan
  split_ifs <;> simp

def zeroHttp : HttpRandom := ⟨Vector.replicate 16 0, 0, 0⟩

def zeroHello : HelloRandom := ⟨Vector.replicate 28 0, Vector.replicate 32 0, 0⟩

def idle : Source UInt8 IoError := ⟨[], false, fun _ => .pending⟩

/-- two bytes whose first write is pending and is retried with one byte more, and then the rest -/
def retry : List Call := [.write [97, 98], .write [97, 98, 99], .write [99], .flush]

theorem exactly_once_retry :
    ExactlyOnce (httpPayload "h".toList 80
      (Answering.run (HttpObfs.call zeroHttp) (HttpObfs.new idle ⟨[], slowPlan⟩ "h".toList 80) retry).2.write.wire)
      (Answering.run (HttpObfs.call zeroHttp) (HttpObfs.new idle ⟨[], slowPlan⟩ "h".toList 80) retry).1 ∧
    ExactlyOnce (some (TlsObfs.tlsPayload "h".toList
      (Answering.run (TlsObfs.call zeroHello) (TlsObfs.new idle ⟨[], slowPlan⟩ "h".toList) retry).2.write.wire))
      (Answering.run (TlsObfs.call zeroHello) (TlsObfs.new idle ⟨[], slowPlan⟩ "h".toList) retry).1 :=
  ⟨(exactly_once idle ⟨[], slowPlan⟩ rfl slowPlan_quiet retry).1 zeroHttp "h".toList 80
    (by decide +kernel) (by decide +kernel),
  (exactly_once idle ⟨[], slowPlan⟩ rfl slowPlan_quiet retry).2 zeroHello "h".toList
    (by decide +kernel) (by decide +kernel)⟩

theorem not_exactlyOnce {payload : Option (List UInt8)} {hist : WriteHist} (hw : waiting hist = [])
    (hp : payload ≠ some (reported hist)) : ¬ ExactlyOnce payload hist := by
  rintro ⟨out, hpay, hout⟩
  rw [hw, List.prefix_nil] at hout
  rw [hout, List.append_nil] at hpay
  exact hp hpay

/-- a pending write of two bytes, a flush that drains its frame, and the retry -/
def flushedRetry : List Call := [.write [97, 98], .flush, .write [97, 98]]

/-- **Sent twice.** Every call of `flushedRetry` is honest and two bytes are reported as written, but both wrappers have
put them on the wire twice. -/
theorem duplicated :
    ¬ ∀ (recv : Source UInt8 IoError) (send : Sink UInt8 IoError) (calls : List Call), send.sent = [] → send.Quiet →
      (∀ rnd host port, HonestCalls (HttpObfs.call rnd) (HttpObfs.new recv send host port) calls →
        ExactlyOnce (httpPayload host port
          (Answering.run (HttpObfs.call rnd) (HttpObfs.new recv send host port) calls).2.write.wire)
          (Answering.run (HttpObfs.call rnd) (HttpObfs.new recv send host port) calls).1) ∨
      ∀ rnd server, HonestCalls (TlsObfs.call rnd) (TlsObfs.new recv send server) calls →
        ExactlyOnce (some (TlsObfs.tlsPayload server
          (Answering.run (TlsObfs.call rnd) (TlsObfs.new recv send server) calls).2.write.wire))
          (Answering.run (TlsObfs.call rnd) (TlsObfs.new recv send server) calls).1 := by
  intro h
  rcases h idle ⟨[], slowPlan⟩ flushedRetry rfl slowPlan_quiet with hhttp | htls
  · have := hhttp zeroHttp "h".toList 80 (by decide +kernel)
    exact not_exactlyOnce (by decide +kernel) (by decide +kernel) this
  · have := htls zeroHello "h".toList (by decide +kernel)
    exact not_exactlyOnce (by decide +kernel) (by decide +kernel) this

end ShadowsocksOhos
