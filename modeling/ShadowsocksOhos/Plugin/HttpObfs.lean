/-
HTTP simple-obfs (`obfs.rs`, `HttpObfs`): the client wrapper of a TCP stream that sends its first write inside a fake
`GET / HTTP/1.1` request and strips the header of the first response.

State: the inner socket, split into the half read from (`recv`) and the half written to (in `write`), and the fields
of `HttpObfs`. A caller's `ReadBuf` is seen through its free room; `pollRead` returns the bytes put into it.

Write side: `buildHttpRequest` is `build_http_request` with its random draws as an argument. `pollWrite` frames the
first buffer offered and passes every later one through.
Read side: `headerRound` is one round of the loop that collects the response header in `response_scratch`; the loop
ends because each round that goes on has read at least one byte of what the peer sent. The bytes after the header that
do not fit the caller's buffer wait in `leftover`.
-/
import ShadowsocksOhos.Core.Base64
import ShadowsocksOhos.Core.Occurs
import ShadowsocksOhos.Plugin.WriteHalf

namespace ShadowsocksOhos

open Polled Occurs

/-! ## The terminator of a header -/

/-- `b"\r\n\r\n"` -/
def crlfCrlf : List UInt8 := [13, 10, 13, 10]

def findDoubleCrlf (data : List UInt8) : Option ℕ :=
  if data.length < 4 then none
  else (List.range (data.length - 4 + 1)).find? fun i => (data.drop i).take 4 == crlfCrlf

theorem crlfCrlf_ne_nil : crlfCrlf ≠ [] := by decide

/-- the search finds the first occurrence and nothing else -/
theorem findDoubleCrlf_eq_some {data : List UInt8} {i : ℕ} :
    findDoubleCrlf data = some i ↔ FirstOccurs crlfCrlf data i := by
  have hat : ∀ j, ((data.drop j).take 4 == crlfCrlf) = true ↔ OccursAt crlfCrlf data j := fun j => by
    rw [beq_iff_eq, occursAt_iff_take]; rfl
  have hin : ∀ j, OccursAt crlfCrlf data j → j + 4 ≤ data.length := fun j h => h.le_length crlfCrlf_ne_nil
  unfold findDoubleCrlf
  split_ifs with hl
  · simp only [false_iff]
    intro h
    have := hin i h.1
    omega
  · rw [List.find?_range_eq_some, hat]
    constructor
    · rintro ⟨h1, -, h3⟩
      exact ⟨h1, fun j hj hjo => by simpa [(hat j).2 hjo] using h3 j hj⟩
    · rintro ⟨h1, h2⟩
      have := hin i h1
      refine ⟨h1, by rw [List.mem_range]; omega, fun j hj => ?_⟩
      have h3 := h2 j hj
      rw [← hat] at h3
      simpa using h3

theorem findDoubleCrlf_eq_none {data : List UInt8} :
    findDoubleCrlf data = none ↔ ∀ i, ¬ OccursAt crlfCrlf data i := by
  constructor
  · intro h i hi
    obtain ⟨j, hj, hmin⟩ : ∃ j, OccursAt crlfCrlf data j ∧ ∀ k < j, ¬ OccursAt crlfCrlf data k :=
      ⟨Nat.find ⟨i, hi⟩, Nat.find_spec ⟨i, hi⟩, fun k hk => Nat.find_min ⟨i, hi⟩ hk⟩
    rw [findDoubleCrlf_eq_some.2 ⟨hj, hmin⟩] at h
    cases h
  · intro h
    cases hf : findDoubleCrlf data with
    | none => rfl
    | some i => exact absurd (findDoubleCrlf_eq_some.1 hf).1 (h i)

/-! ## The request -/

/-- the draws of `build_http_request` from the random generator -/
structure HttpRandom where
  randBytes : Vector UInt8 16
  uaMaj : UInt32
  uaMin : UInt32

/-- the value of the `Host` header -/
def hostHeader (host : List Char) (port : UInt16) : List Char :=
  if port = 80 then host else host ++ ":".toList ++ decimal port.toNat

def webSocketKey (rnd : HttpRandom) : List Char := Base64.encode Base64.urlSafe (some '=') rnd.randBytes.toList

def buildHttpRequest (rnd : HttpRandom) (host : List Char) (port : UInt16) (body : List UInt8) : List UInt8 :=
  asBytes (
    "GET / HTTP/1.1\r\n".toList ++
    "Host: ".toList ++ hostHeader host port ++ "\r\n".toList ++
    "User-Agent: curl/7.".toList ++ decimal (rnd.uaMaj.toNat % 54) ++ ".".toList ++
      decimal (rnd.uaMin.toNat % 2) ++ "\r\n".toList ++
    "Upgrade: websocket\r\n".toList ++
    "Connection: Upgrade\r\n".toList ++
    "Sec-WebSocket-Key: ".toList ++ webSocketKey rnd ++ "\r\n".toList ++
    "Content-Length: ".toList ++ decimal body.length ++ "\r\n".toList ++
    "\r\n".toList) ++ body

/-! ## The wrapper -/

structure HttpObfs where
  recv : Source UInt8 IoError
  write : WriteHalf
  host : List Char
  port : UInt16
  firstResponse : Bool
  responseScratch : List UInt8
  leftover : List UInt8
  leftoverOff : ℕ

namespace HttpObfs

def new (recv : Source UInt8 IoError) (send : Sink UInt8 IoError) (host : List Char) (port : UInt16) : HttpObfs :=
  ⟨recv, WriteHalf.new send, host, port, true, [], [], 0⟩

/-! ### Reading -/

/-- the header may not grow beyond 16 KiB -/
def maxHeader : ℕ := 16 * 1024

/-- the size of the buffer that one round reads into -/
def headerRead : ℕ := 1024

def headerTooLong : IoError := ⟨.invalidData, "obfs http: response header exceeds limit"⟩

/-- hand the read on to the inner socket -/
def passthrough (o : HttpObfs) (room : ℕ) : Poll (Except IoError (List UInt8)) × HttpObfs :=
  ((o.recv.pollRead room).1, { o with recv := (o.recv.pollRead room).2 })

/-- the header has been found to end in `scratch`, right before `body`: hand out what fits of `body` and keep the
rest. When the header arrived without any body byte, the read goes on to the inner socket instead of answering with
zero bytes. -/
def headerDone (o : HttpObfs) (room : ℕ) (body : List UInt8) : Poll (Except IoError (List UInt8)) × HttpObfs :=
  let take := min body.length room
  let o :=
    if take < body.length then { o with leftover := o.leftover ++ body.drop take, leftoverOff := 0 } else o
  let o := { o with firstResponse := false, responseScratch := [] }
  if 0 < take then (.ready (.ok (body.take take)), o) else o.passthrough room

/-- one round of the loop that reads the response header -/
def headerRound (room : ℕ) (o : HttpObfs) : HttpObfs ⊕ (Poll (Except IoError (List UInt8)) × HttpObfs) :=
  match o.recv.pollRead headerRead with
  | (.pending, recv) => .inr (.pending, { o with recv := recv })
  | (.ready (.error e), recv) => .inr (.ready (.error e), { o with recv := recv })
  | (.ready (.ok tmp), recv) =>
    if tmp.length = 0 then .inr (.ready (.ok []), { o with recv := recv })
    else
      let scratch := o.responseScratch ++ tmp
      let o := { o with recv := recv, responseScratch := scratch }
      match findDoubleCrlf scratch with
      | some idx => .inr (o.headerDone room (scratch.drop (idx + 4)))
      | none => if maxHeader < scratch.length then .inr (.ready (.error headerTooLong), o) else .inl o

theorem headerRound_falls (room : ℕ) : Loop.Falls (headerRound room) (fun o => o.recv.rest.length) := by
  intro o o' h
  unfold headerRound at h
  split at h
  · simp at h
  · simp at h
  · rename_i tmp recv hp
    split_ifs at h with h0
    dsimp only at h
    split at h
    · simp at h
    · split_ifs at h
      simp only [Sum.inl.injEq] at h
      subst h
      show recv.rest.length < o.recv.rest.length
      rw [(Source.pollRead_ok hp).1, List.length_append]
      omega

/-- `leftover_off += n`; a leftover that is used up is cleared -/
def advance (o : HttpObfs) (n : ℕ) : HttpObfs :=
  if o.leftover.length ≤ o.leftoverOff + n then { o with leftover := [], leftoverOff := 0 }
  else { o with leftoverOff := o.leftoverOff + n }

def pollRead (o : HttpObfs) (room : ℕ) : Poll (Except IoError (List UInt8)) × HttpObfs :=
  if o.leftoverOff < o.leftover.length then
    let avail := o.leftover.drop o.leftoverOff
    let take := min avail.length room
    (.ready (.ok (avail.take take)), o.advance take)
  else if o.firstResponse then Loop.run (headerRound room) _ (headerRound_falls room) o
  else o.passthrough room

/-! ### Writing -/

/-- what `poll_write` does with a buffer while no frame is buffered -/
def offer (rnd : HttpRandom) (host : List Char) (port : UInt16) (w : WriteHalf) (buf : List UInt8) :
    Poll (Except IoError ℕ) × WriteHalf :=
  if w.firstRequest then w.accept (buildHttpRequest rnd host port buf) buf.length
  else ((w.send.pollWrite buf).1, { w with send := (w.send.pollWrite buf).2 })

def pollWrite (rnd : HttpRandom) (o : HttpObfs) (buf : List UInt8) : Poll (Except IoError ℕ) × HttpObfs :=
  let r := if !o.write.writeBuf.isEmpty then o.write.resume else offer rnd o.host o.port o.write buf
  (r.1, { o with write := r.2 })

def pollFlush (o : HttpObfs) : Poll (Except IoError Unit) × HttpObfs :=
  (o.write.pollFlush.1, { o with write := o.write.pollFlush.2 })

def pollShutdown (o : HttpObfs) : Poll (Except IoError Unit) × HttpObfs :=
  (o.write.pollShutdown.1, { o with write := o.write.pollShutdown.2 })

end HttpObfs

end ShadowsocksOhos
