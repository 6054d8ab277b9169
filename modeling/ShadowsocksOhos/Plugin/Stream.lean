/-
What the wrappers of `obfs.rs` share: the errors they make, the bytes of text and numbers, and the view of a caller
that reads from a wrapped stream. A reader's history holds, for every poll, the free room of the buffer it passed and
the answer it got.
-/
import ShadowsocksOhos.Core.Polled

namespace ShadowsocksOhos

open Polled

/-! ## Errors and text -/

/-- the kinds of `io::Error` that the wrappers make; every other kind comes from the inner socket -/
inductive ErrorKind where
  | writeZero
  | invalidData
  | other (code : ℕ)
deriving DecidableEq, Repr

structure IoError where
  kind : ErrorKind
  message : String
deriving DecidableEq, Repr

/-- `as_bytes` of a string: its UTF-8 bytes -/
def asBytes (s : List Char) : List UInt8 := s.flatMap String.utf8EncodeChar

/-- a number as `format!` prints it -/
def decimal (n : ℕ) : List Char := Nat.toDigits 10 n

/-- big-endian bytes of a `u16` -/
def toBeBytes (n : UInt16) : List UInt8 := [(n >>> 8).toUInt8, n.toUInt8]

/-- `u16::from_be_bytes` -/
def fromBeBytes (hi lo : UInt8) : ℕ := hi.toNat * 256 + lo.toNat

/-! ## A reader's view -/

/-- the history of a reader: each poll is given the free room of the caller's buffer -/
abbrev ReadHist := List (ℕ × Poll (Except IoError (List UInt8)))

/-- the bytes handed to the caller over all polls -/
def delivered (hist : ReadHist) : List UInt8 := hist.flatMap fun x => x.2.bytes

/-- the polls that were not answered with pending -/
def answered (hist : ReadHist) : ReadHist := hist.filter fun x => x.2 ≠ .pending

/-- some poll got this answer -/
def Answers (hist : ReadHist) (a : Poll (Except IoError (List UInt8))) : Prop := ∃ x ∈ hist, x.2 = a

theorem delivered_snoc (hist : ReadHist) (room : ℕ) (a : Poll (Except IoError (List UInt8))) :
    delivered (hist ++ [(room, a)]) = delivered hist ++ a.bytes := by
  simp [delivered]

theorem answers_snoc {hist : ReadHist} {room : ℕ} {a b : Poll (Except IoError (List UInt8))} :
    Answers (hist ++ [(room, a)]) b ↔ Answers hist b ∨ a = b := by
  simp [Answers, or_and_right, exists_or]

/-- until the end is answered every answered poll delivers at least one byte; one more poll that does not fail keeps that -/
theorem progress_snoc {hist : ReadHist} {room : ℕ} {a : Poll (Except IoError (List UInt8))}
    (h : Answers hist (.ready (.ok [])) ∨ (answered hist).length ≤ (delivered hist).length)
    (ha : ∀ e, a ≠ .ready (.error e)) :
    Answers (hist ++ [(room, a)]) (.ready (.ok [])) ∨
      (answered (hist ++ [(room, a)])).length ≤ (delivered (hist ++ [(room, a)])).length := by
  rw [answers_snoc, delivered_snoc, answered, List.filter_append, List.length_append, List.length_append]
  rcases h with hp | hp
  · exact Or.inl (Or.inl hp)
  · unfold answered at hp
    rcases a with _ | e | bytes
    · right; simpa using hp
    · exact absurd rfl (ha e)
    · by_cases hb : bytes = []
      · left; right; rw [hb]
      · right
        have := List.length_pos_of_ne_nil hb
        exact Nat.add_le_add hp (by simpa [Nat.succ_le_iff] using this)

/-- the inner socket does not fail, and has answered the end only after its last byte -/
def RecvOk (recv : Source UInt8 IoError) : Prop := recv.Quiet ∧ (recv.ended = true → recv.rest = [])

theorem RecvOk.read {recv recv' : Source UInt8 IoError} {room : ℕ} {r : Poll (Except IoError (List UInt8))}
    (h : RecvOk recv) (hp : recv.pollRead room = (r, recv')) : RecvOk recv' :=
  ⟨Source.pollRead_quiet hp h.1, Source.pollRead_ended hp h.2⟩

end ShadowsocksOhos
