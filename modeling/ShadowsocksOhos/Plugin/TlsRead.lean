/-
The download direction of TLS simple-obfs.

- `Place`: where a byte of the server's stream stands, read one byte at a time: in framing that is skipped, in a length
  field, or in a payload. `Place.tag` marks every byte of a stream as payload or framing.
- `serverStream`: what a server sends, each byte marked: a preamble of 105 bytes, a length and a payload, then records
  of three header bytes, a length and a payload. `tag_serverStream`: the places find exactly these marks, and they do
  so for every prefix as well, so a stream that is cut off anywhere is covered.
- `Follows`: the wrapper's phase is the place after what it has read, and it has delivered the payload bytes among it.
- `pollRead_prompt`: one poll is pending only when the inner socket is.
- `deframe_exact`: over every run the bytes delivered are exactly the payload bytes received, zero bytes mean the end
  of the stream, and every poll ends.
-/
import ShadowsocksOhos.Core.Answering
import ShadowsocksOhos.Core.Prompt
import ShadowsocksOhos.Plugin.TlsObfs

namespace ShadowsocksOhos

open Polled

namespace TlsObfs

/-! ## The framing of a server's stream -/

inductive Place where
  /-- in framing, `n` more bytes of it after this one -/
  | skip (n : ℕ)
  /-- at the high byte of a length field -/
  | lenHi
  /-- at the low byte of a length field -/
  | lenLo (hi : UInt8)
  /-- in a payload, `n` more bytes of it after this one -/
  | body (n : ℕ)
deriving DecidableEq, Repr

namespace Place

/-- before `n` bytes of framing -/
def skipFrom : ℕ → Place
  | 0 => .lenHi
  | n + 1 => .skip n

/-- before a payload of `n` bytes; an empty one is followed by the header of the next record at once -/
def bodyFrom : ℕ → Place
  | 0 => skipFrom recordHeaderDiscard
  | n + 1 => .body n

def next : Place → UInt8 → Place
  | .skip n, _ => skipFrom n
  | .lenHi, b => .lenLo b
  | .lenLo hi, lo => bodyFrom (fromBeBytes hi lo)
  | .body n, _ => bodyFrom n

def isBody : Place → Bool
  | .body _ => true
  | _ => false

/-- the place after some bytes -/
def after (p : Place) (bytes : List UInt8) : Place := bytes.foldl next p

/-- mark every byte: is it one of a payload? -/
def tag (p : Place) : List UInt8 → List (UInt8 × Bool)
  | [] => []
  | b :: bs => (b, p.isBody) :: tag (p.next b) bs

/-- the start of the first response -/
def start : Place := skipFrom firstResponseDiscard

end Place

/-- the bytes marked as payload -/
def payloadBytes (marked : List (UInt8 × Bool)) : List UInt8 := (marked.filter Prod.snd).map Prod.fst

@[simp] theorem payloadBytes_append (a b : List (UInt8 × Bool)) :
    payloadBytes (a ++ b) = payloadBytes a ++ payloadBytes b := by
  simp [payloadBytes]

/-- mark all bytes alike -/
def mark (body : Bool) (bytes : List UInt8) : List (UInt8 × Bool) := bytes.map fun b => (b, body)

@[simp] theorem payloadBytes_mark (body : Bool) (bytes : List UInt8) :
    payloadBytes (mark body bytes) = if body then bytes else [] := by
  cases body <;> simp [payloadBytes, mark, List.filter_map, Function.comp_def]

namespace Place

theorem after_append (p : Place) (a b : List UInt8) : p.after (a ++ b) = (p.after a).after b := List.foldl_append

theorem tag_append (p : Place) (a b : List UInt8) : p.tag (a ++ b) = p.tag a ++ (p.after a).tag b := by
  induction a generalizing p with
  | nil => rfl
  | cons x a ih => simp only [List.cons_append, tag, ih]; rfl

theorem tag_take (p : Place) (bytes : List UInt8) (k : ℕ) : p.tag (bytes.take k) = (p.tag bytes).take k := by
  induction bytes generalizing p k with
  | nil => simp [tag]
  | cons b bs ih =>
    cases k with
    | zero => rfl
    | succ k => simp only [List.take_succ_cons, tag, ih]

theorem skipFrom_run {n : ℕ} {bytes : List UInt8} (h : bytes.length ≤ n) :
    (skipFrom n).after bytes = skipFrom (n - bytes.length) ∧ (skipFrom n).tag bytes = mark false bytes := by
  induction bytes generalizing n with
  | nil => exact ⟨rfl, rfl⟩
  | cons b bs ih =>
    cases n with
    | zero => simp at h
    | succ n =>
      obtain ⟨h1, h2⟩ := @ih n (by simpa using h)
      refine ⟨?_, ?_⟩
      · rw [List.length_cons, Nat.add_sub_add_right, ← h1]; rfl
      · simp only [tag, mark, List.map_cons]
        rw [show ((skipFrom (n + 1)).next b).tag bs = mark false bs from h2]
        rfl

theorem bodyFrom_run {n : ℕ} {bytes : List UInt8} (h : bytes.length ≤ n) :
    (bodyFrom n).after bytes = bodyFrom (n - bytes.length) ∧ (bodyFrom n).tag bytes = mark true bytes := by
  induction bytes generalizing n with
  | nil => exact ⟨rfl, rfl⟩
  | cons b bs ih =>
    cases n with
    | zero => simp at h
    | succ n =>
      obtain ⟨h1, h2⟩ := @ih n (by simpa using h)
      refine ⟨?_, ?_⟩
      · rw [List.length_cons, Nat.add_sub_add_right, ← h1]; rfl
      · simp only [tag, mark, List.map_cons]
        rw [show ((bodyFrom (n + 1)).next b).tag bs = mark true bs from h2]
        rfl

end Place

/-! ### What a server sends -/

/-- a payload that its two-byte length field can announce -/
structure Payload where
  bytes : List UInt8
  fits : bytes.length ≤ 65535

/-- the length field and the payload, marked -/
def Payload.marked (p : Payload) : List (UInt8 × Bool) :=
  mark false (toBeBytes (UInt16.ofNat p.bytes.length)) ++ mark true p.bytes

/-- a record after the first response: three header bytes, a length, a payload -/
structure Record where
  header : Vector UInt8 3
  payload : Payload

def Record.marked (r : Record) : List (UInt8 × Bool) := mark false r.header.toList ++ r.payload.marked

/-- the whole stream of a server, marked -/
def serverStream (preamble : Vector UInt8 105) (first : Payload) (records : List Record) : List (UInt8 × Bool) :=
  mark false preamble.toList ++ first.marked ++ records.flatMap Record.marked

theorem fromBeBytes_toBeBytes (n : ℕ) (h : n ≤ 65535) :
    ∃ hi lo, toBeBytes (UInt16.ofNat n) = [hi, lo] ∧ fromBeBytes hi lo = n := by
  refine ⟨_, _, rfl, ?_⟩
  simp only [fromBeBytes, UInt16.toNat_toUInt8, UInt16.toNat_shiftRight, UInt16.toNat_ofNat',
    Nat.shiftRight_eq_div_pow]
  have : (UInt16.toNat 8 % 16) = 8 := rfl
  rw [this]
  omega

@[simp] theorem map_fst_mark (body : Bool) (bytes : List UInt8) : (mark body bytes).map Prod.fst = bytes := by
  simp [mark, Function.comp_def]

theorem tag_payload (p : Payload) :
    Place.tag .lenHi (p.marked.map Prod.fst) = p.marked ∧
      Place.after .lenHi (p.marked.map Prod.fst) = Place.skipFrom recordHeaderDiscard := by
  obtain ⟨hi, lo, hbe, hlen⟩ := fromBeBytes_toBeBytes p.bytes.length p.fits
  obtain ⟨h1, h2⟩ := Place.bodyFrom_run (le_refl p.bytes.length)
  have hafter : Place.after .lenHi [hi, lo] = .bodyFrom p.bytes.length := by
    show Place.bodyFrom (fromBeBytes hi lo) = _
    rw [hlen]
  simp only [Payload.marked, hbe, List.map_append, map_fst_mark, Place.tag_append, Place.after_append, hafter, h1, h2,
    Nat.sub_self]
  exact ⟨rfl, rfl⟩

theorem tag_records (records : List Record) :
    (Place.skipFrom recordHeaderDiscard).tag ((records.flatMap Record.marked).map Prod.fst) =
      records.flatMap Record.marked := by
  induction records with
  | nil => rfl
  | cons r records ih =>
    obtain ⟨h1, h2⟩ := tag_payload r.payload
    obtain ⟨h3, h4⟩ := @Place.skipFrom_run recordHeaderDiscard r.header.toList (by simp [recordHeaderDiscard])
    have h5 : (Place.skipFrom recordHeaderDiscard).after r.header.toList = .lenHi := by
      rw [h3]; simp [recordHeaderDiscard, Place.skipFrom]
    simp only [List.flatMap_cons, Record.marked, List.map_append, map_fst_mark, Place.tag_append, Place.after_append,
      h4, h5, h1, h2]
    rw [ih]

/-- **The places find the framing.** Reading a server's stream byte by byte marks it as the server meant it. -/
theorem tag_serverStream (preamble : Vector UInt8 105) (first : Payload) (records : List Record) :
    Place.start.tag ((serverStream preamble first records).map Prod.fst) = serverStream preamble first records := by
  obtain ⟨h1, h2⟩ := tag_payload first
  obtain ⟨h3, h4⟩ := @Place.skipFrom_run firstResponseDiscard preamble.toList (by simp [firstResponseDiscard])
  have h5 : Place.start.after preamble.toList = .lenHi := by
    rw [Place.start, h3]; simp [firstResponseDiscard, Place.skipFrom]
  have h4' : Place.start.tag preamble.toList = mark false preamble.toList := h4
  simp only [serverStream, List.map_append, map_fst_mark, Place.tag_append, Place.after_append, h4', h5, h1, h2,
    tag_records]

@[simp] theorem payloadBytes_payload (p : Payload) : payloadBytes p.marked = p.bytes := by
  simp [Payload.marked]

@[simp] theorem payloadBytes_flatMap (records : List Record) :
    payloadBytes (records.flatMap Record.marked) = records.flatMap fun r => r.payload.bytes := by
  induction records with
  | nil => rfl
  | cons r records ih => simp [Record.marked, ih]

/-- the payloads, one after another -/
theorem payloadBytes_serverStream (preamble : Vector UInt8 105) (first : Payload) (records : List Record) :
    payloadBytes (serverStream preamble first records) = first.bytes ++ records.flatMap fun r => r.payload.bytes := by
  simp [serverStream]

/-! ## The wrapper follows the stream -/

/-- the place that the fields of the wrapper stand for -/
def placeOf (o : TlsObfs) : Place :=
  match o.readPhase with
  | .discard n => .skipFrom n
  | .length =>
    match o.lenProgress with
    | 0 => .lenHi
    | 1 => .lenLo (o.lenBuf.getD 0 0)
    | _ => .bodyFrom (frameLength o.lenBuf)
  | .payload n => .bodyFrom n

/-- the wrapper has read `read` of the stream, is at the place after it, and has delivered the payload bytes in it -/
structure FollowsAt (stream out : List UInt8) (o : TlsObfs) (read : List UInt8) : Prop where
  stream : stream = read ++ o.recv.rest
  place : Place.start.after read = o.placeOf
  out : payloadBytes (Place.start.tag read) = out
  lenBuf : o.lenBuf.length = 2
  recv : RecvOk o.recv

def Follows (stream out : List UInt8) (o : TlsObfs) : Prop := ∃ read, FollowsAt stream out o read

/-- taking `tmp` off the stream, with the place after it and the payload bytes in it accounted for -/
theorem Follows.read {stream out tmp bytes : List UInt8} {o o' : TlsObfs} (h : Follows stream out o)
    (hrest : o.recv.rest = tmp ++ o'.recv.rest) (hplace : o.placeOf.after tmp = o'.placeOf)
    (hout : payloadBytes (o.placeOf.tag tmp) = bytes) (hlen : o'.lenBuf.length = 2) (hrecv : RecvOk o'.recv) :
    Follows stream (out ++ bytes) o' := by
  obtain ⟨read, hf⟩ := h
  refine ⟨read ++ tmp, ?_, ?_, ?_, hlen, hrecv⟩
  · rw [hf.stream, hrest, List.append_assoc]
  · rw [Place.after_append, hf.place, hplace]
  · rw [Place.tag_append, payloadBytes_append, hf.place, hf.out, hout]

/-- taking framing off the stream -/
theorem Follows.skip {stream out tmp : List UInt8} {o o' : TlsObfs} (h : Follows stream out o)
    (hrest : o.recv.rest = tmp ++ o'.recv.rest) (hplace : o.placeOf.after tmp = o'.placeOf)
    (hout : payloadBytes (o.placeOf.tag tmp) = []) (hlen : o'.lenBuf.length = 2) (hrecv : RecvOk o'.recv) :
    Follows stream out o' := by
  simpa using h.read hrest hplace hout hlen hrecv

/-- a change of phase that stays at the same place -/
theorem Follows.move {stream out : List UInt8} {o o' : TlsObfs} (h : Follows stream out o) (hr : o'.recv = o.recv)
    (hplace : o.placeOf = o'.placeOf) (hlen : o'.lenBuf = o.lenBuf) : Follows stream out o' := by
  obtain ⟨read, hf⟩ := h
  exact ⟨read, by rw [hr]; exact hf.stream, hf.place.trans hplace, hf.out, by rw [hlen]; exact hf.lenBuf,
    by rw [hr]; exact hf.recv⟩

/-- what one poll gives after `out` was delivered -/
structure Gives (stream out : List UInt8) (r : Poll (Except IoError (List UInt8)) × TlsObfs) : Prop where
  follows : Follows stream (out ++ r.1.bytes) r.2
  zero : r.1 = .ready (.ok []) → r.2.recv.ended = true
  no_error : ∀ e, r.1 ≠ .ready (.error e)

/-- a round goes on with the wrapper still following, or it leaves with what the poll gives -/
def Goes (stream out : List UInt8) : TlsObfs ⊕ (Poll (Except IoError (List UInt8)) × TlsObfs) → Prop
  | .inl o' => Follows stream out o'
  | .inr r => Gives stream out r

/-- **Read rule.** An inner read that is pending or at the end of the stream leaves the poll at the same place; so only
the bytes of a read that found some are left to account for. -/
theorem readInner_goes {stream out : List UInt8} {o : TlsObfs} {want : ℕ}
    {go : TlsObfs → List UInt8 → TlsObfs ⊕ (Poll (Except IoError (List UInt8)) × TlsObfs)}
    (h : Follows stream out o) (hw : 0 < want)
    (hgo : ∀ recv tmp, o.recv.rest = tmp ++ recv.rest → tmp ≠ [] → tmp.length ≤ want → RecvOk recv →
      Goes stream out (go { o with recv := recv } tmp)) :
    Goes stream out (o.readInner want go) := by
  obtain ⟨read, hf⟩ := h
  unfold readInner
  rcases hp : o.recv.pollRead want with ⟨_ | e | tmp, recv⟩
  · obtain ⟨hrest, -⟩ := Source.pollRead_pending hp
    refine ⟨⟨read, by rw [hrest]; exact hf.stream, hf.place, by simpa using hf.out, hf.lenBuf, hf.recv.read hp⟩,
      by simp, by simp⟩
  · exact absurd hp (Source.pollRead_no_error hf.recv.1)
  · obtain ⟨hrest, hle, -, hzero⟩ := Source.pollRead_ok hp
    dsimp only
    split_ifs with h0
    · have htmp : tmp = [] := List.length_eq_zero_iff.1 h0
      refine ⟨⟨read, ?_, hf.place, by simpa using hf.out, hf.lenBuf, hf.recv.read hp⟩, fun _ => ?_, by simp⟩
      · rw [hf.stream, hrest, htmp]; rfl
      · exact (hzero hw htmp).2
    · exact hgo recv tmp hrest (fun hn => h0 (by simp [hn])) hle (hf.recv.read hp)

/-! ### One poll -/

/-- reading bytes of a length field, of which `progress` are there -/
theorem length_read {lenBuf tmp : List UInt8} {progress : ℕ} (hl : lenBuf.length = 2) (hp : progress < 2)
    (htmp : tmp ≠ []) (hle : tmp.length ≤ 2 - progress) (o : TlsObfs) :
    let p := placeOf { o with readPhase := .length, lenBuf := lenBuf, lenProgress := progress }
    p.after tmp = placeOf { o with
      readPhase := .length
      lenBuf := copyAt lenBuf tmp progress
      lenProgress := progress + tmp.length } ∧
    payloadBytes (p.tag tmp) = [] ∧ (copyAt lenBuf tmp progress).length = 2 := by
  obtain ⟨x, y, rfl⟩ := List.length_eq_two.1 hl
  match progress, tmp, hp, htmp, hle with
  | 0, [a], _, _, _ => exact ⟨rfl, rfl, rfl⟩
  | 0, [a, b], _, _, _ => exact ⟨rfl, rfl, rfl⟩
  | 1, [b], _, _, _ => exact ⟨rfl, rfl, rfl⟩
  | 0, _ :: _ :: _ :: _, _, _, hle => simp at hle
  | 1, _ :: _ :: _, _, _, hle => simp at hle

theorem readRound_goes {stream out : List UInt8} {o : TlsObfs} {room : ℕ} (h : Follows stream out o) (hr : 0 < room) :
    Goes stream out (readRound room o) := by
  have hlenBuf : o.lenBuf.length = 2 := h.elim fun _ hf => hf.lenBuf
  unfold readRound
  split
  · rename_i hph
    exact h.move rfl (by simp [placeOf, hph, Place.skipFrom]) rfl
  · rename_i n hph
    refine readInner_goes h (by omega) fun recv tmp hrest htmp hle hrecv => ?_
    have hplace : o.placeOf = .skipFrom (n + 1) := by simp [placeOf, hph]
    obtain ⟨h1, h2⟩ := @Place.skipFrom_run (n + 1) tmp (by omega)
    exact h.skip hrest (by rw [hplace, h1]; rfl) (by rw [hplace, h2, payloadBytes_mark]; rfl) hlenBuf hrecv
  · rename_i hph
    split_ifs with hl
    · refine h.move rfl ?_ rfl
      obtain ⟨k, hk⟩ : ∃ k, o.lenProgress = k + 2 := ⟨o.lenProgress - 2, by omega⟩
      simp [placeOf, hph, hk]
    · refine readInner_goes h (by omega) fun recv tmp hrest htmp hle hrecv => ?_
      obtain ⟨h1, h2, h3⟩ := length_read hlenBuf (by omega) htmp hle { o with recv := recv }
      have hplace : o.placeOf = placeOf { o with recv := recv, readPhase := .length } := by simp [placeOf, hph]
      refine h.skip hrest ?_ (by rw [hplace]; exact h2) h3 hrecv
      rw [hplace]
      exact h1.trans (by simp [placeOf, hph])
  · rename_i hph
    exact h.move rfl (by simp [placeOf, hph, Place.bodyFrom]) rfl
  · rename_i n hph
    have hwant : 0 < min room (n + 1) := by omega
    rw [if_neg hwant.ne']
    refine readInner_goes h hwant fun recv tmp hrest htmp hle hrecv => ?_
    have hplace : o.placeOf = .bodyFrom (n + 1) := by simp [placeOf, hph]
    obtain ⟨h1, h2⟩ := @Place.bodyFrom_run (n + 1) tmp (by omega)
    refine ⟨?_, fun hz => ?_, by simp⟩
    · exact h.read hrest (by rw [hplace, h1]; rfl) (by rw [hplace, h2, payloadBytes_mark]; rfl) hlenBuf hrecv
    · simp only [Poll.ready.injEq, Except.ok.injEq] at hz
      exact absurd hz htmp

/-- **One poll.** A poll into a buffer with room keeps following the stream. -/
theorem pollRead_gives {stream out : List UInt8} {o : TlsObfs} {room : ℕ} (h : Follows stream out o) (hr : 0 < room) :
    Gives stream out (o.pollRead room) := by
  refine Loop.run_rule (readRound_falls room) (I := Follows stream out) (Q := Gives stream out) ?_ ?_ h
  · intro v v' hv hgo
    have := readRound_goes hv hr
    rwa [hgo] at this
  · intro v r hv hleave
    have := readRound_goes hv hr
    rwa [hleave] at this

/-! ### Pending answers -/

/-- an inner read, when what is done with its bytes reads no more -/
theorem readInner_prompt (o : TlsObfs) (want : ℕ)
    {go : TlsObfs → List UInt8 → TlsObfs ⊕ (Poll (Except IoError (List UInt8)) × TlsObfs)}
    (hgo : ∀ o tmp, (∃ o', go o tmp = .inl o' ∧ o'.recv = o.recv) ∨
      ∃ a o', go o tmp = .inr (.ready a, o') ∧ o'.recv = o.recv) : PromptRound recv o (o.readInner want go) := by
  unfold readInner
  have hused := Source.pollRead_used o.recv want
  rcases hp : o.recv.pollRead want with ⟨_ | e | tmp, recv'⟩ <;> rw [hp] at hused
  · exact ⟨⟨1, hused⟩, fun _ => Source.pollRead_waits hp⟩
  · exact promptRound_ready hused
  · dsimp only
    split_ifs
    · exact promptRound_ready hused
    · have hgone : ∀ o' : TlsObfs, o'.recv = recv' → o.recv.Used o'.recv 1 := by
        rintro o' rfl
        exact hused
      rcases hgo { o with recv := recv' } tmp with ⟨o', hinl, hrecv⟩ | ⟨a, o', hinr, hrecv⟩
      · rw [hinl]
        exact ⟨1, hgone o' hrecv⟩
      · rw [hinr]
        exact promptRound_ready (hgone o' hrecv)

theorem readRound_prompt (room : ℕ) (o : TlsObfs) : PromptRound recv o (readRound room o) := by
  unfold readRound
  cases o.readPhase with
  | discard n =>
    cases n with
    | zero => exact ⟨0, Source.used_zero _⟩
    | succ n => exact readInner_prompt o _ fun o tmp => Or.inl ⟨_, rfl, rfl⟩
  | length =>
    dsimp only
    split_ifs
    · exact ⟨0, Source.used_zero _⟩
    · exact readInner_prompt o _ fun o tmp => Or.inl ⟨_, rfl, rfl⟩
  | payload n =>
    cases n with
    | zero => exact ⟨0, Source.used_zero _⟩
    | succ n =>
      dsimp only
      split_ifs
      · exact promptRound_ready (Source.used_zero _)
      · exact readInner_prompt o _ fun o tmp => Or.inr ⟨_, _, rfl, rfl⟩

/-- **A poll waits only for the inner socket.** -/
theorem pollRead_prompt (o : TlsObfs) (room : ℕ) : Prompt recv o (o.pollRead room) :=
  prompt_loop (readRound_falls room) (readRound_prompt room) o

/-! ## Runs -/

/-- any run of polls over the stream, from a fresh wrapper -/
abbrev readRun (stream : List UInt8) (plan : ℕ → ReadAnswer IoError) (send : Sink UInt8 IoError) (server : List Char)
    (rooms : List ℕ) : ReadHist × TlsObfs :=
  Answering.run pollRead (new ⟨stream, false, plan⟩ send server) rooms

/-- the bytes of the stream that have been read -/
def bytesRead (stream : List UInt8) (o : TlsObfs) : ℕ := stream.length - o.recv.rest.length

/-- what has been delivered is a prefix of the payload bytes of the stream -/
theorem Follows.prefix_payload {stream out : List UInt8} {o : TlsObfs} (h : Follows stream out o) :
    out <+: payloadBytes (Place.start.tag stream) := by
  obtain ⟨read, hf⟩ := h
  rw [hf.stream, Place.tag_append, payloadBytes_append, hf.out]
  exact List.prefix_append _ _

/-- the account of a run over a stream: every answered poll delivers at least a byte, until the end is answered -/
structure ReadInv (stream : List UInt8) (hist : ReadHist) (o : TlsObfs) : Prop where
  follows : Follows stream (delivered hist) o
  complete : Answers hist (.ready (.ok [])) → delivered hist = payloadBytes (Place.start.tag stream)
  progress : Answers hist (.ready (.ok [])) ∨ (answered hist).length ≤ (delivered hist).length
  no_error : ∀ e, ¬ Answers hist (.ready (.error e))

theorem readInv_step {stream : List UInt8} {hist : ReadHist} {o : TlsObfs} {room : ℕ} (h : ReadInv stream hist o)
    (hr : 0 < room) : ReadInv stream (hist ++ [(room, (o.pollRead room).1)]) (o.pollRead room).2 := by
  obtain ⟨hfollows, hzero, herr⟩ := pollRead_gives h.follows hr
  refine ⟨by rw [delivered_snoc]; exact hfollows, fun hz => ?_, ?_, fun e he => ?_⟩
  · rw [delivered_snoc]
    rcases answers_snoc.1 hz with hz | hz
    · -- all payload bytes were delivered, so nothing more can come
      have hle := hfollows.prefix_payload.length_le
      rw [← h.complete hz, List.length_append] at hle
      rw [← h.complete hz, List.length_eq_zero_iff.1 (show (o.pollRead room).1.bytes.length = 0 by omega),
        List.append_nil]
    · obtain ⟨read, hf⟩ := hfollows
      have hrest := hf.recv.2 (hzero hz)
      rw [← hf.out, hf.stream, hrest, List.append_nil]
  · exact progress_snoc h.progress herr
  · rcases answers_snoc.1 he with he | he
    · exact h.no_error e he
    · exact herr e he

theorem readInv_run (stream : List UInt8) {plan : ℕ → ReadAnswer IoError} (hplan : ∀ n e, plan n ≠ .error e)
    (send : Sink UInt8 IoError) (server : List Char) {rooms : List ℕ} (hrooms : ∀ room ∈ rooms, 0 < room) :
    ReadInv stream (readRun stream plan send server rooms).1 (readRun stream plan send server rooms).2 := by
  refine Answering.run_inv_of_inputs (P := fun room => 0 < room) (I := ReadInv stream) ?_ ?_ hrooms
  · exact ⟨⟨[], rfl, rfl, rfl, rfl, hplan, by simp [new]⟩, by simp [Answers], Or.inr le_rfl, by simp [Answers]⟩
  · exact fun hist o room h hr => readInv_step h hr

/-- **The download direction of TLS simple-obfs.** For every stream of a server, cut off anywhere, every way it is cut
into reads with pending answers in between, and every sequence of caller buffers with room:
- the bytes delivered are exactly the payload bytes among the bytes read so far, so no framing byte is among them and
none is missing; once the end of the stream has been answered, or more polls have been answered than the payloads have
bytes, they are all the payload bytes that arrive; together with what is still to come they are the payloads in order;
- when at most `p` answers of the inner socket are pending, they are all that arrive after more polls than that and the
bytes of the payloads; a poll is pending only when the last read of the inner socket in it was;
- a poll answers with zero bytes only after the inner stream has ended, and no poll fails;
- every poll leaves its loop. -/
theorem deframe_exact (preamble : Vector UInt8 105) (first : Payload) (records : List Record) (cut : ℕ)
    (plan : ℕ → ReadAnswer IoError) (hplan : ∀ n e, plan n ≠ .error e) (send : Sink UInt8 IoError)
    (server : List Char) (rooms : List ℕ) (hrooms : ∀ room ∈ rooms, 0 < room) :
    let sent := (serverStream preamble first records).take cut
    let stream := sent.map Prod.fst
    let r := readRun stream plan send server rooms
    delivered r.1 = payloadBytes (sent.take (bytesRead stream r.2)) ∧
    (Answers r.1 (.ready (.ok [])) ∨ (payloadBytes sent).length < (answered r.1).length →
      delivered r.1 = payloadBytes sent) ∧
    (∀ p, (∀ n, pauses plan n ≤ p) → (payloadBytes sent).length + p < rooms.length →
      delivered r.1 = payloadBytes sent) ∧
    (∀ room, (r.2.pollRead room).1 = .pending → r.2.recv.Waits (r.2.pollRead room).2.recv) ∧
    payloadBytes sent <+: first.bytes ++ records.flatMap (fun record => record.payload.bytes) ∧
    (∀ e, ¬ Answers r.1 (.ready (.error e))) ∧
    (∀ room, 0 < room → (r.2.pollRead room).1 = .ready (.ok []) → (r.2.pollRead room).2.recv.ended = true) ∧
    ∀ room, ∃ n, Loop.rounds (readRound room) n r.2 = some (r.2.pollRead room) := by
  intro sent stream r
  have hinv : ReadInv stream r.1 r.2 := readInv_run stream hplan send server hrooms
  have htag : Place.start.tag stream = sent := by
    have := Place.tag_take Place.start ((serverStream preamble first records).map Prod.fst) cut
    rwa [tag_serverStream, ← List.map_take] at this
  obtain ⟨read, hf⟩ := hinv.follows
  have hwhole : Answers r.1 (.ready (.ok [])) ∨ (payloadBytes sent).length < (answered r.1).length →
      delivered r.1 = payloadBytes sent := by
    rw [← htag]
    rintro (hz | hlen)
    · exact hinv.complete hz
    · rcases hinv.progress with hz | hp
      · exact hinv.complete hz
      · have := hinv.follows.prefix_payload.length_le
        omega
  refine ⟨?_, hwhole, fun p hp hlen => ?_, fun room => (pollRead_prompt r.2 room).waits, ?_, hinv.no_error,
    fun room hr hz => (pollRead_gives hinv.follows hr).zero hz,
    fun room => ⟨_, Loop.rounds_run (readRound_falls room) r.2⟩⟩
  · have hread : stream.take (bytesRead stream r.2) = read := by
      have hlen : bytesRead stream r.2 = read.length := by
        have := congrArg List.length hf.stream
        rw [List.length_append] at this
        unfold bytesRead
        omega
      rw [hlen, hf.stream, List.take_left]
    rw [← htag, ← Place.tag_take, hread, hf.out]
  · have hanswered : rooms.length ≤ (answered r.1).length + p := answered_run pollRead_prompt _ rooms hp
    exact hwhole (Or.inr (by omega))
  · rw [← payloadBytes_serverStream preamble, ← List.take_append_drop cut (serverStream preamble first records),
      payloadBytes_append]
    exact List.prefix_append _ _

/-- an empty first payload and a record with `hi`, read two bytes at a time with pending answers in between into
buffers of one byte: both bytes arrive, and then the end -/
theorem deframe_exact_hi :
    delivered (readRun ((serverStream (Vector.replicate 105 7) ⟨[], by decide⟩
      [⟨#v[23, 3, 3], ⟨[104, 105], by decide⟩⟩]).take 200 |>.map Prod.fst)
      (fun n => if n % 2 = 0 then .pending else .data 1) ⟨[], fun _ => .pending⟩ [] (List.replicate 120 1)).1 =
    [104, 105] := by
  have h := (deframe_exact (Vector.replicate 105 7) ⟨[], by decide⟩ [⟨#v[23, 3, 3], ⟨[104, 105], by decide⟩⟩] 200
    (fun n => if n % 2 = 0 then .pending else .data 1) (fun n e => by split_ifs <;> simp) ⟨[], fun _ => .pending⟩ []
    (List.replicate 120 1) (by decide)).2.1
  exact h (Or.inr (by decide +kernel))

end TlsObfs

end ShadowsocksOhos
