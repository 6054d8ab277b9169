/-
TLS simple-obfs (`obfs.rs`, `TlsObfs`): the client wrapper that sends its first write inside a fake TLS ClientHello and
every later chunk as a TLS application-data record, and that strips the same framing from what it reads.

`buildClientHello` is `build_client_hello` with its random bytes and its clock as an argument. Its length fields are
`u16` sums that wrap, as they do in a release build.
Read side: `readRound` is one round of the loop of `poll_read`, a match on `read_phase`. A round that goes on has
either read a byte or moved to a phase that will read or answer within two more rounds, so the loop ends
(`readRound_falls`).
-/
import ShadowsocksOhos.Plugin.WriteHalf

namespace ShadowsocksOhos

open Polled

/-! ## The fake ClientHello -/

/-- the draws of `build_client_hello` from the random generator and the clock -/
structure HelloRandom where
  random : Vector UInt8 28
  sessionId : Vector UInt8 32
  now : UInt32

/-- big-endian bytes of a `u32` -/
def toBeBytes32 (n : UInt32) : List UInt8 :=
  [(n >>> 24).toUInt8, (n >>> 16).toUInt8, (n >>> 8).toUInt8, n.toUInt8]

def cipherSuites : List UInt8 :=
  [0xc0, 0x2c, 0xc0, 0x30, 0x00, 0x9f, 0xcc, 0xa9, 0xcc, 0xa8, 0xcc, 0xaa, 0xc0, 0x2b, 0xc0,
   0x2f, 0x00, 0x9e, 0xc0, 0x24, 0xc0, 0x28, 0x00, 0x6b, 0xc0, 0x23, 0xc0, 0x27, 0x00, 0x67,
   0xc0, 0x0a, 0xc0, 0x14, 0x00, 0x39, 0xc0, 0x09, 0xc0, 0x13, 0x00, 0x33, 0x00, 0x9d, 0x00,
   0x9c, 0x00, 0x3d, 0x00, 0x3c, 0x00, 0x35, 0x00, 0x2f, 0x00, 0xff]

def signatureAlgorithms : List UInt8 :=
  [0x00, 0x0d, 0x00, 0x20, 0x00, 0x1e, 0x06, 0x01, 0x06, 0x02, 0x06, 0x03, 0x05, 0x01, 0x05,
   0x02, 0x05, 0x03, 0x04, 0x01, 0x04, 0x02, 0x04, 0x03, 0x03, 0x01, 0x03, 0x02, 0x03, 0x03,
   0x02, 0x01, 0x02, 0x02, 0x02, 0x03]

def buildClientHello (rnd : HelloRandom) (data : List UInt8) (server : List Char) : List UInt8 :=
  let serverBytes := asBytes server
  let dataLen := UInt16.ofNat data.length
  let serverLen := UInt16.ofNat serverBytes.length
  -- record header: handshake, TLS 1.0, length
  [0x16, 0x03, 0x01] ++ toBeBytes (212 + dataLen + serverLen) ++
  -- handshake header: ClientHello, uint24 length
  [0x01, 0x00] ++ toBeBytes (208 + dataLen + serverLen) ++
  -- client_version, random (timestamp first), session_id
  [0x03, 0x03] ++ toBeBytes32 rnd.now ++ rnd.random.toList ++ [32] ++ rnd.sessionId.toList ++
  -- cipher_suites, compression_methods
  [0x00, 0x38] ++ cipherSuites ++ [0x01, 0x00] ++
  -- extensions: session_ticket with the data, server_name with the server
  toBeBytes (79 + dataLen + serverLen) ++
  [0x00, 0x23] ++ toBeBytes dataLen ++ data ++
  [0x00, 0x00] ++ toBeBytes (serverLen + 5) ++ toBeBytes (serverLen + 3) ++ [0x00] ++ toBeBytes serverLen ++
    serverBytes ++
  -- ec_point_formats, supported_groups, signature_algorithms, encrypt_then_mac, extended_master_secret
  [0x00, 0x0b, 0x00, 0x04, 0x03, 0x01, 0x00, 0x02] ++
  [0x00, 0x0a, 0x00, 0x0a, 0x00, 0x08, 0x00, 0x1d, 0x00, 0x17, 0x00, 0x19, 0x00, 0x18] ++
  signatureAlgorithms ++ [0x00, 0x16, 0x00, 0x00] ++ [0x00, 0x17, 0x00, 0x00]

/-- one application-data record -/
def buildRecord (chunk : List UInt8) : List UInt8 :=
  [0x17, 0x03, 0x03] ++ toBeBytes (UInt16.ofNat chunk.length) ++ chunk

/-! ## The wrapper -/

inductive TlsReadPhase where
  /-- discarding `n` bytes of framing -/
  | discard (n : ℕ)
  /-- reading the length field -/
  | length
  /-- reading `n` more bytes of the current frame's payload into the caller's buffer -/
  | payload (n : ℕ)
deriving DecidableEq, Repr

structure TlsObfs where
  recv : Source UInt8 IoError
  write : WriteHalf
  server : List Char
  firstResponse : Bool
  readPhase : TlsReadPhase
  lenBuf : List UInt8
  lenProgress : ℕ

namespace TlsObfs

/-- 16 KiB -/
def chunkSize : ℕ := 2 ^ 14

def firstResponseDiscard : ℕ := 105

/-- type and version of a record -/
def recordHeaderDiscard : ℕ := 3

def new (recv : Source UInt8 IoError) (send : Sink UInt8 IoError) (server : List Char) : TlsObfs :=
  ⟨recv, WriteHalf.new send, server, true, .discard firstResponseDiscard, [0, 0], 0⟩

/-! ### Reading -/

/-- `len_buf[at..at + bytes.len()].copy_from_slice(bytes)` -/
def copyAt (buf bytes : List UInt8) (at_ : ℕ) : List UInt8 :=
  buf.take at_ ++ bytes ++ buf.drop (at_ + bytes.length)

/-- the length field, once both its bytes are there -/
def frameLength (lenBuf : List UInt8) : ℕ := fromBeBytes (lenBuf.getD 0 0) (lenBuf.getD 1 0)

/-- the reads of a round: an inner read of `want` bytes, and what to do with the bytes when there are any -/
def readInner (o : TlsObfs) (want : ℕ)
    (go : TlsObfs → List UInt8 → TlsObfs ⊕ (Poll (Except IoError (List UInt8)) × TlsObfs)) :
    TlsObfs ⊕ (Poll (Except IoError (List UInt8)) × TlsObfs) :=
  match o.recv.pollRead want with
  | (.pending, recv) => .inr (.pending, { o with recv := recv })
  | (.ready (.error e), recv) => .inr (.ready (.error e), { o with recv := recv })
  | (.ready (.ok tmp), recv) =>
    if tmp.length = 0 then .inr (.ready (.ok []), { o with recv := recv }) else go { o with recv := recv } tmp

/-- one round of the loop of `poll_read` -/
def readRound (room : ℕ) (o : TlsObfs) : TlsObfs ⊕ (Poll (Except IoError (List UInt8)) × TlsObfs) :=
  match o.readPhase with
  | .discard 0 => .inl { o with readPhase := .length, lenProgress := 0 }
  | .discard (n + 1) =>
    o.readInner (min (n + 1) 256) fun o tmp => .inl { o with readPhase := .discard (n + 1 - tmp.length) }
  | .length =>
    if 2 ≤ o.lenProgress then .inl { o with readPhase := .payload (frameLength o.lenBuf) }
    else
      o.readInner (2 - o.lenProgress) fun o tmp =>
        .inl { o with lenBuf := copyAt o.lenBuf tmp o.lenProgress, lenProgress := o.lenProgress + tmp.length }
  | .payload 0 => .inl { o with readPhase := .discard recordHeaderDiscard, firstResponse := false }
  | .payload (n + 1) =>
    if min room (n + 1) = 0 then .inr (.ready (.ok []), o)
    else
      o.readInner (min room (n + 1)) fun o tmp =>
        .inr (.ready (.ok tmp), { o with readPhase := .payload (n + 1 - tmp.length) })

/-- how many rounds a phase may go on without reading -/
def phaseRank (o : TlsObfs) : ℕ :=
  match o.readPhase with
  | .discard 0 => 1
  | .discard _ => 0
  | .length => if 2 ≤ o.lenProgress then 3 else 0
  | .payload 0 => 2
  | .payload _ => 0

def readMeasure (o : TlsObfs) : ℕ := 4 * o.recv.rest.length + o.phaseRank

theorem phaseRank_le (o : TlsObfs) : o.phaseRank ≤ 3 := by
  unfold phaseRank
  split
  · omega
  · omega
  · split_ifs <;> omega
  · omega
  · omega

/-- a read that goes on has taken bytes off the stream -/
theorem readInner_inl {o o' : TlsObfs} {want : ℕ}
    {go : TlsObfs → List UInt8 → TlsObfs ⊕ (Poll (Except IoError (List UInt8)) × TlsObfs)}
    (h : o.readInner want go = .inl o') :
    ∃ recv tmp, o.recv.pollRead want = (.ready (.ok tmp), recv) ∧ tmp ≠ [] ∧ go { o with recv := recv } tmp = .inl o' := by
  unfold readInner at h
  rcases hp : o.recv.pollRead want with ⟨_ | e | tmp, recv⟩ <;> rw [hp] at h
  · simp at h
  · simp at h
  · dsimp only at h
    split_ifs at h with h0
    exact ⟨recv, tmp, rfl, fun hn => h0 (by simp [hn]), h⟩

theorem readMeasure_read {o o' : TlsObfs} {want : ℕ} {recv : Source UInt8 IoError} {tmp : List UInt8}
    (hp : o.recv.pollRead want = (.ready (.ok tmp), recv)) (ht : tmp ≠ []) (ho : o'.recv = recv) :
    o'.readMeasure < o.readMeasure := by
  have hlen : o.recv.rest.length = tmp.length + recv.rest.length := by
    rw [(Source.pollRead_ok hp).1, List.length_append]
  have hpos := List.length_pos_of_ne_nil ht
  have := o'.phaseRank_le
  unfold readMeasure
  rw [ho]
  omega

theorem readRound_falls (room : ℕ) : Loop.Falls (readRound room) readMeasure := by
  intro o o' h
  unfold readRound at h
  split at h
  · rename_i hph
    simp only [Sum.inl.injEq] at h
    subst h
    simp [readMeasure, phaseRank, hph]
  · obtain ⟨recv, tmp, hp, ht, hg⟩ := readInner_inl h
    simp only [Sum.inl.injEq] at hg
    exact readMeasure_read hp ht (by rw [← hg])
  · rename_i hph
    split_ifs at h with hl
    · simp only [Sum.inl.injEq] at h
      subst h
      have hrank : o.phaseRank = 3 := by simp [phaseRank, hph, hl]
      have hlt : ∀ n, (TlsObfs.phaseRank { o with readPhase := .payload n }) < 3 := fun n => by
        unfold phaseRank; cases n <;> simp
      have := hlt (frameLength o.lenBuf)
      simp only [readMeasure, hrank]
      omega
    · obtain ⟨recv, tmp, hp, ht, hg⟩ := readInner_inl h
      simp only [Sum.inl.injEq] at hg
      exact readMeasure_read hp ht (by rw [← hg])
  · rename_i hph
    simp only [Sum.inl.injEq] at h
    subst h
    simp [readMeasure, phaseRank, hph, recordHeaderDiscard]
  · split_ifs at h
    obtain ⟨recv, tmp, hp, ht, hg⟩ := readInner_inl h
    simp at hg

def pollRead (o : TlsObfs) (room : ℕ) : Poll (Except IoError (List UInt8)) × TlsObfs :=
  Loop.run (readRound room) readMeasure (readRound_falls room) o

/-! ### Writing -/

/-- what `poll_write` does with a buffer while no frame is buffered -/
def offer (rnd : HelloRandom) (server : List Char) (w : WriteHalf) (buf : List UInt8) :
    Poll (Except IoError ℕ) × WriteHalf :=
  if buf.isEmpty then (.ready (.ok 0), w)
  else
    let take := min buf.length chunkSize
    let chunk := buf.take take
    w.accept (if w.firstRequest then buildClientHello rnd chunk server else buildRecord chunk) take

def pollWrite (rnd : HelloRandom) (o : TlsObfs) (buf : List UInt8) : Poll (Except IoError ℕ) × TlsObfs :=
  let r := if !o.write.writeBuf.isEmpty then o.write.resume else offer rnd o.server o.write buf
  (r.1, { o with write := r.2 })

def pollFlush (o : TlsObfs) : Poll (Except IoError Unit) × TlsObfs :=
  (o.write.pollFlush.1, { o with write := o.write.pollFlush.2 })

def pollShutdown (o : TlsObfs) : Poll (Except IoError Unit) × TlsObfs :=
  (o.write.pollShutdown.1, { o with write := o.write.pollShutdown.2 })

end TlsObfs

end ShadowsocksOhos
