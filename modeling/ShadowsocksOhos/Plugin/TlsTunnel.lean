/-
Two TLS simple-obfs wrappers, one reading what the other has written (`tls_obfs_round_trip_through_two_wrappers` of `obfs.rs`).
The first frame of a wrapper is a ClientHello, and the first response that it expects is 105 bytes of handshake, of which the
last three are the header of a record. So a server in between drops the ClientHello and sends 102 bytes of its own instead;
the records after it pass as they are.
- `duplex_halves`: reads and writes concern a half of the wrapper each.
- `wire_parts`: where the ClientHello on the wire ends, and the chunk in its session ticket.
- `payload_records`: what a wrapper is sent behind the 102 bytes.
- `records_agree`: what the one wrapper delivers is what the other reported as written, its first chunk apart.
-/
import ShadowsocksOhos.Plugin.ObfsErrors

namespace ShadowsocksOhos

open Polled

namespace TlsTunnel

open TlsObfs
open WriteHalf (wireOf)

/-! ## The two halves of the wrapper -/

section Halves

/-- the wrapper with what a read does not look at taken from another one -/
def outside (x o : TlsObfs) : TlsObfs := { o with write := x.write, server := x.server }

def Outside (x : TlsObfs) (a b : Poll (Except IoError (List UInt8)) × TlsObfs) : Prop := b = (a.1, outside x a.2)

/-- a round does the same, whatever is outside -/
abbrev RoundOutside (x : TlsObfs) (a b : TlsObfs ⊕ (Poll (Except IoError (List UInt8)) × TlsObfs)) : Prop :=
  Sum.LiftRel (fun v v' => v' = outside x v) (Outside x) a b

variable (x : TlsObfs) {room : ℕ}

theorem readInner_outside (o : TlsObfs) (want : ℕ)
    {go : TlsObfs → List UInt8 → TlsObfs ⊕ (Poll (Except IoError (List UInt8)) × TlsObfs)}
    (hgo : ∀ o' tmp, RoundOutside x (go o' tmp) (go (outside x o') tmp)) :
    RoundOutside x (o.readInner want go) ((outside x o).readInner want go) := by
  unfold readInner
  rw [show (outside x o).recv = o.recv from rfl]
  rcases o.recv.pollRead want with ⟨_ | e | tmp, recv⟩
  · exact .inr rfl
  · exact .inr rfl
  · dsimp only
    split_ifs
    · exact .inr rfl
    · exact hgo { o with recv := recv } tmp

theorem readRound_outside (o o' : TlsObfs) (h : o' = outside x o) : RoundOutside x (readRound room o) (readRound room o') := by
  subst h
  unfold readRound
  rw [show (outside x o).readPhase = o.readPhase from rfl, show (outside x o).lenProgress = o.lenProgress from rfl,
    show (outside x o).lenBuf = o.lenBuf from rfl]
  cases o.readPhase with
  | discard n =>
    cases n with
    | zero => exact .inl rfl
    | succ n => exact readInner_outside x o _ fun o' tmp => .inl rfl
  | length =>
    dsimp only
    split_ifs
    · exact .inl rfl
    · exact readInner_outside x o _ fun o' tmp => .inl rfl
  | payload n =>
    cases n with
    | zero => exact .inl rfl
    | succ n =>
      dsimp only
      split_ifs
      · exact .inr rfl
      · exact readInner_outside x o _ fun o' tmp => .inr rfl

/-- a read does not look at the write half -/
theorem pollRead_outside (o : TlsObfs) (room : ℕ) :
    (outside x o).pollRead room = ((o.pollRead room).1, outside x (o.pollRead room).2) :=
  Loop.run_sim _ _ (R := fun v v' => v' = outside x v) (Q := Outside x) (readRound_outside x) rfl

end Halves

/-- reads, writes, flushes and shutdowns of one wrapper, in any order -/
abbrev duplex (rnd : HelloRandom) : TlsObfs → ℕ ⊕ Call → (Poll (Except IoError (List UInt8)) ⊕ CallAnswer) × TlsObfs :=
  Answering.both TlsObfs.pollRead (TlsObfs.call rnd)

/-- **Two directions.** Reads and writes concern a half of the wrapper each. -/
theorem duplex_halves (rnd : HelloRandom) : Answering.Halves outside TlsObfs.pollRead (TlsObfs.call rnd) where
  self _ := rfl
  onto_onto _ _ _ := rfl
  onto_left _ _ _ := rfl
  first := pollRead_outside
  second x o c := by
    rw [TlsObfs.call_eq, TlsObfs.call_eq]
    rfl

/-! ## The wire of the writer -/

/-- the length of the first chunk: the length field of the session ticket -/
def ticketLength (wire : List UInt8) : ℕ := fromBeBytes (wire.getD 140 0) (wire.getD 141 0)

/-- the first chunk -/
def ticket (wire : List UInt8) : List UInt8 := (wire.drop 142).take (ticketLength wire)

/-- what follows the ClientHello -/
def recordsOf (server : List Char) (wire : List UInt8) : List UInt8 :=
  wire.drop (217 + ticketLength wire + (asBytes server).length)

theorem hello_length (rnd : HelloRandom) (c : List UInt8) (server : List Char) :
    (buildClientHello rnd c server).length = 217 + c.length + (asBytes server).length := by
  have htwo : ∀ n : UInt16, (toBeBytes n).length = 2 := fun _ => rfl
  rw [buildClientHello_eq, List.length_append, List.length_append, List.length_append, helloHead_length, htwo,
    helloTail_length]
  ring

section Parts

variable (rnd : HelloRandom) (server : List Char) {c : List UInt8}

theorem ticketLength_hello (hc : c.length ≤ chunkSize) (later : List UInt8) :
    ticketLength (buildClientHello rnd c server ++ later) = c.length := by
  obtain ⟨hi, lo, hbe, hlen⟩ := fromBeBytes_toBeBytes c.length (hc.trans (by decide))
  have hhead := helloHead_length rnd (UInt16.ofNat c.length) (UInt16.ofNat (asBytes server).length)
  unfold ticketLength
  rw [buildClientHello_eq, hbe]
  generalize helloHead rnd _ _ = head at hhead
  have hat : ∀ k, (head ++ ([hi, lo] ++ (c ++ helloTail server)) ++ later).getD (140 + k) 0 =
      ([hi, lo] ++ (c ++ helloTail server ++ later)).getD k 0 := by
    intro k
    rw [List.getD_eq_getElem?_getD, List.append_assoc, List.append_assoc, List.getElem?_append_right (by omega), hhead,
      Nat.add_sub_cancel_left, List.getD_eq_getElem?_getD]
  have hhi := hat 0
  have hlo := hat 1
  rw [hhi, hlo]
  exact hlen

/-- **The parts of the wire**: a chunk in the session ticket, and what follows the ClientHello. -/
theorem wire_parts (hc : c.length ≤ chunkSize) (later : List UInt8) :
    ticket (buildClientHello rnd c server ++ later) = c ∧
      recordsOf server (buildClientHello rnd c server ++ later) = later := by
  have hlen := ticketLength_hello rnd server hc later
  constructor
  · have hhead : (helloHead rnd (UInt16.ofNat c.length) (UInt16.ofNat (asBytes server).length) ++
        toBeBytes (UInt16.ofNat c.length)).length = 142 := by rw [List.length_append, helloHead_length]; rfl
    unfold ticket
    rw [hlen, buildClientHello_eq, ← List.append_assoc, List.append_assoc, List.drop_left' hhead, List.append_assoc,
      List.take_left]
  · unfold recordsOf
    rw [hlen]
    exact List.drop_left' (hello_length rnd c server)

end Parts

/-- of a part of the wire, a part of the records -/
theorem recordsOf_mono {sent wire : List UInt8} (h : sent <+: wire) (server : List Char) :
    recordsOf server sent <+: recordsOf server wire := by
  unfold recordsOf
  by_cases hlen : 142 ≤ sent.length
  · have hat : ∀ k, k < 142 → sent.getD k 0 = wire.getD k 0 := by
      intro k hk
      obtain ⟨later, rfl⟩ := h
      rw [List.getD_eq_getElem?_getD, List.getD_eq_getElem?_getD, List.getElem?_append_left (by omega)]
    have hticket : ticketLength sent = ticketLength wire := by
      unfold ticketLength
      rw [hat 140 (by decide), hat 141 (by decide)]
    rw [hticket]
    exact h.drop _
  · rw [List.drop_of_length_le (by omega)]
    exact List.nil_prefix

/-! ## The stream of the reader -/

/-- **What the reader is sent** behind the 102 bytes of the server's own: records, read as their payloads. -/
theorem payload_records (preamble : Vector UInt8 102) {cs : List (List UInt8)} (h : ∀ c ∈ cs, c.length ≤ chunkSize) :
    payloadBytes (Place.start.tag (preamble.toList ++ cs.flatMap buildRecord)) = cs.flatten := by
  have hlen : preamble.toList.length = 102 := preamble.length_toList
  have hle : preamble.toList.length ≤ firstResponseDiscard := by
    rw [hlen]
    decide
  obtain ⟨hafter, htag⟩ := Place.skipFrom_run hle
  rw [hlen] at hafter
  unfold Place.start
  rw [Place.tag_append, htag, hafter, payloadBytes_append, payloadBytes_mark, if_neg Bool.false_ne_true, List.nil_append]
  exact payloadBytes_records h

theorem payload_mono {stream whole : List UInt8} (h : stream <+: whole) (p : Place) :
    payloadBytes (p.tag stream) <+: payloadBytes (p.tag whole) := by
  obtain ⟨later, rfl⟩ := h
  rw [Place.tag_append, payloadBytes_append]
  exact List.prefix_append _ _

/-! ## Main result -/

/-- `written` are the answers to the writes of a wrapper with this `wire`, `hist` those to the reads of a wrapper that was sent
`stream`: the first chunk and what was delivered are what was reported as written, all of it if the whole wire has come -/
def Agree (preamble : Vector UInt8 102) (server : List Char) (written : WriteHist) (wire stream : List UInt8)
    (hist : ReadHist) : Prop :=
  ∃ out, out <+: unwritten written ∧ ticket wire ++ delivered hist <+: reported written ++ out ∧
    (stream = preamble.toList ++ recordsOf server wire → Answers hist (.ready (.ok [])) →
      ticket wire ++ delivered hist = reported written ++ out)

/-- the reads of a wrapper, and the writes of another one, each taken alone -/
theorem agree_runs (preamble : Vector UInt8 102) (rnd : HelloRandom) (server server' : List Char) (recv : Source UInt8 IoError)
    {send : Sink UInt8 IoError} (hsent : send.sent = []) {calls : List Call}
    (hh : PerseveringCalls (TlsObfs.call rnd) (.new recv send server) calls)
    (hu : UnforgottenCalls (TlsObfs.call rnd) TlsObfs.write (.new recv send server) calls)
    (plan : ℕ → ReadAnswer IoError) (send' : Sink UInt8 IoError) {stream : List UInt8} {rooms : List ℕ}
    (hstream : stream <+: preamble.toList ++
      recordsOf server (Answering.run (TlsObfs.call rnd) (.new recv send server) calls).2.write.send.sent)
    (hrooms : ∀ room ∈ rooms, 0 < room) :
    Agree preamble server (Answering.run (TlsObfs.call rnd) (.new recv send server) calls).1
      (Answering.run (TlsObfs.call rnd) (.new recv send server) calls).2.write.wire stream
      (readRun stream plan send' server' rooms).1 := by
  obtain ⟨chunks, out, hwire, hfits, hpayload, hout⟩ := account_errors (P := fun o : TlsObfs => o.server = server) rfl
    (fun o c ho => by rw [TlsObfs.call_eq, ho]; exact ⟨rfl, rfl, rfl⟩)
    (fun w buf hb _ hq => TlsObfs.offer_accepts rnd server w buf hb hq) (TlsObfs.offer_stalled rnd server) hsent rfl hh hu
  generalize Answering.run (TlsObfs.call rnd) (.new recv send server) calls = r at hstream hwire hpayload hout ⊢
  obtain ⟨hread, hall, -⟩ := TlsObfs.download_errors plan send' stream hrooms server'
  generalize readRun stream plan send' server' rooms = b at hread hall ⊢
  have hbefore : stream <+: preamble.toList ++ recordsOf server r.2.write.wire :=
    hstream.trans ((List.prefix_append_right_inj _).2 (recordsOf_mono (List.prefix_append _ _) server))
  -- the chunks behind the first one are what the records carry
  obtain ⟨first, later, hticket, hrecords, hfirst⟩ : ∃ first later, ticket r.2.write.wire = first ∧
      payloadBytes (Place.start.tag (preamble.toList ++ recordsOf server r.2.write.wire)) = later ∧
      first ++ later = reported r.1 ++ out := by
    rw [hwire]
    cases chunks with
    | nil =>
      have hrecords : recordsOf server (wireOf (framing rnd server) []) = [].flatMap buildRecord := List.drop_nil
      refine ⟨[], [], List.take_nil, ?_, hpayload⟩
      rw [hrecords]
      exact payload_records preamble (List.forall_mem_nil _)
    | cons c cs =>
      obtain ⟨hticket, hrecords⟩ := wire_parts rnd server (hfits c List.mem_cons_self).2 (cs.flatMap buildRecord)
      refine ⟨c, cs.flatten, hticket, ?_, hpayload⟩
      rw [show recordsOf server (wireOf (framing rnd server) (c :: cs)) = cs.flatMap buildRecord from hrecords]
      exact payload_records preamble fun d hd => (hfits d (List.mem_cons_of_mem _ hd)).2
  refine ⟨out, hout, ?_, fun hwhole hend => ?_⟩
  · rw [hticket, ← hfirst, hread, ← hrecords]
    exact (List.prefix_append_right_inj _).2 (payload_mono ((List.take_prefix _ _).trans hbefore) _)
  · rw [hticket, ← hfirst, hall (Or.inl hend), hwhole, hrecords]

/-- **The two wrappers agree about the records.** Reads, writes, flushes and shutdowns of either come in any order, on sockets
that may fail; the one writes, going on with the bytes that were not taken, and no write meets a forgotten input; the other is
sent what has come of the first one's records, behind any 102 bytes. Then the first chunk of the writer and what the reader
delivers are what the writer was told has been written, in order, as far as it has come; and when the reader has seen the end
of everything, all of it, with at most one range of the buffer of a last write that took nothing. -/
theorem records_agree (preamble : Vector UInt8 102) (rnd rnd' : HelloRandom) (server server' : List Char)
    (recv : Source UInt8 IoError) (send send' : Sink UInt8 IoError) (hsent : send.sent = [])
    (plan : ℕ → ReadAnswer IoError) (stream : List UInt8) (ops ops' : List (ℕ ⊕ Call))
    (hrooms : ∀ room ∈ Answering.firsts ops', 0 < room) :
    let writer := TlsObfs.new recv send server
    let a := Answering.run (duplex rnd) writer ops
    let b := Answering.run (duplex rnd') (TlsObfs.new ⟨stream, false, plan⟩ send' server') ops'
    PerseveringCalls (TlsObfs.call rnd) writer (Answering.seconds ops) →
    UnforgottenCalls (TlsObfs.call rnd) TlsObfs.write writer (Answering.seconds ops) →
    stream <+: preamble.toList ++ recordsOf server a.2.write.send.sent →
      Agree preamble server (Answering.secondHist a.1) a.2.write.wire stream (Answering.firstHist b.1) := by
  intro writer a b hh hu hstream
  obtain ⟨-, hwritten, -, hhalf⟩ := (duplex_halves rnd).run writer ops
  obtain ⟨hread, -, -, -⟩ := (duplex_halves rnd').run (TlsObfs.new ⟨stream, false, plan⟩ send' server') ops'
  have hwrite : (Answering.run (TlsObfs.call rnd) writer (Answering.seconds ops)).2.write = a.2.write := by
    rw [hhalf]
    rfl
  rw [hwritten, hread, ← hwrite]
  rw [← hwrite] at hstream
  exact agree_runs preamble rnd server server' recv hsent hh hu plan send' hstream hrooms

/-- writes on a socket that fails first, with reads in between -/
def smallWrites : List (ℕ ⊕ Call) :=
  [.inr (.write [97, 98]), .inl 1, .inr (.write [97, 98]), .inl 1, .inr (.write [97, 98, 99]), .inl 1, .inr (.write [99])]

def smallStream : List UInt8 := (Vector.replicate 102 7).toList ++ buildRecord [99]

/-- reads on a socket that fails now and then -/
def smallReads : List (ℕ ⊕ Call) := List.replicate 9 (.inl 1)

theorem records_agree_small :
    let a := Answering.run (duplex zeroHello) (.new idle ⟨[], brokenPlan⟩ "h".toList) smallWrites
    let b := Answering.run (duplex zeroHello) (.new ⟨smallStream, false, fun n =>
      if n % 4 = 1 then .error ⟨.other 104, "connection reset"⟩ else .data 99⟩ ⟨[], brokenPlan⟩ "h".toList) smallReads
    Agree (Vector.replicate 102 7) "h".toList (Answering.secondHist a.1) a.2.write.wire smallStream
        (Answering.firstHist b.1) ∧
      reported (Answering.secondHist a.1) = [97, 98, 99] ∧ delivered (Answering.firstHist b.1) = [99] := by
  intro a b
  have hagree := records_agree (Vector.replicate 102 7) zeroHello zeroHello "h".toList "h".toList idle ⟨[], brokenPlan⟩
    ⟨[], brokenPlan⟩ rfl (fun n => if n % 4 = 1 then .error ⟨.other 104, "connection reset"⟩ else .data 99) smallStream
    smallWrites smallReads (by decide +kernel) (by decide +kernel) (by decide +kernel) (by decide +kernel)
  exact ⟨hagree, by decide +kernel, by decide +kernel⟩

end TlsTunnel

end ShadowsocksOhos
