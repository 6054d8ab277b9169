/-
The shape of the fake HTTP request. It is a block of seven lines, an empty line and the body. The five lines after the
`Host` line are made by the builder alone, so the header ends at the first empty line after the `Host` line, whatever
the host is.

- `buildHttpRequest_eq`: the request as a block of lines.
- `httpPayload`: what a peer takes off the wire. The request is dropped up to its empty line, everything after it is
  payload. `httpPayload_request`: it finds the payload that was sent.
-/
import ShadowsocksOhos.Plugin.HttpObfs

namespace ShadowsocksOhos

open Occurs

/-! ## Bytes of text -/

theorem asBytes_append (a b : List Char) : asBytes (a ++ b) = asBytes a ++ asBytes b := List.flatMap_append

/-- a byte below 128 is only made by the character with that number -/
theorem mem_utf8EncodeChar {c : Char} {b : UInt8} (hb : b ∈ String.utf8EncodeChar c) (hlt : b.toNat < 128) :
    c.toNat = b.toNat := by
  have hc : c.val.toNat = c.toNat := rfl
  have hofNat : ∀ n, (UInt8.ofNat n).toNat = n % 256 := fun n => UInt8.toNat_ofNat'
  simp only [String.utf8EncodeChar] at hb
  split_ifs at hb with h1 h2 h3 <;> simp only [List.mem_cons, List.not_mem_nil, or_false] at hb
  · subst hb
    rw [hofNat]
    omega
  · rcases hb with rfl | rfl <;> rw [hofNat] at hlt <;> omega
  · rcases hb with rfl | rfl | rfl <;> rw [hofNat] at hlt <;> omega
  · rcases hb with rfl | rfl | rfl | rfl <;> rw [hofNat] at hlt <;> omega

theorem mem_asBytes {s : List Char} {b : UInt8} (hb : b ∈ asBytes s) (hlt : b.toNat < 128) :
    ∃ c ∈ s, c.toNat = b.toNat := by
  obtain ⟨c, hc, hbc⟩ := List.mem_flatMap.1 hb
  exact ⟨c, hc, mem_utf8EncodeChar hbc hlt⟩

/-- a carriage return in the bytes comes from one in the text -/
theorem cr_notMem_asBytes {s : List Char} (h : '\r' ∉ s) : (13 : UInt8) ∉ asBytes s := by
  intro hb
  obtain ⟨c, hc, hn⟩ := mem_asBytes hb (by decide)
  have : c = '\r' := Char.ext (UInt32.toNat_inj.1 hn)
  exact h (this ▸ hc)

theorem asBytes_ne_nil {s : List Char} (h : s ≠ []) : asBytes s ≠ [] := by
  obtain ⟨c, s, rfl⟩ := List.exists_cons_of_ne_nil h
  have hc : String.utf8EncodeChar c ≠ [] := by
    simp only [String.utf8EncodeChar]
    split_ifs <;> simp
  simp [asBytes, hc]

/-! ## The lines -/

/-- lines of text as bytes, each with its end of line -/
def textBlock (lines : List (List Char)) : List UInt8 := block 13 10 (lines.map asBytes)

/-- the lines that depend on the server -/
def serverLines (host : List Char) (port : UInt16) : List (List Char) :=
  ["GET / HTTP/1.1".toList, "Host: ".toList ++ hostHeader host port]

/-- the lines that the builder makes alone -/
def builderLines (rnd : HttpRandom) (bodyLen : ℕ) : List (List Char) :=
  ["User-Agent: curl/7.".toList ++ decimal (rnd.uaMaj.toNat % 54) ++ ".".toList ++ decimal (rnd.uaMin.toNat % 2),
    "Upgrade: websocket".toList,
    "Connection: Upgrade".toList,
    "Sec-WebSocket-Key: ".toList ++ webSocketKey rnd,
    "Content-Length: ".toList ++ decimal bodyLen]

theorem buildHttpRequest_eq (rnd : HttpRandom) (host : List Char) (port : UInt16) (body : List UInt8) :
    buildHttpRequest rnd host port body =
      textBlock (serverLines host port) ++ (textBlock (builderLines rnd body.length) ++ ([13, 10] ++ body)) := by
  have hcut : ∀ a b : List Char, asBytes (a ++ "\r\n".toList ++ b) = asBytes a ++ [13, 10] ++ asBytes b := fun a b => by
    rw [asBytes_append, asBytes_append]; rfl
  have hget : "GET / HTTP/1.1\r\n".toList = "GET / HTTP/1.1".toList ++ "\r\n".toList := rfl
  have hup : "Upgrade: websocket\r\n".toList = "Upgrade: websocket".toList ++ "\r\n".toList := rfl
  have hconn : "Connection: Upgrade\r\n".toList = "Connection: Upgrade".toList ++ "\r\n".toList := rfl
  have hend : asBytes "\r\n".toList = [13, 10] := rfl
  unfold buildHttpRequest textBlock serverLines builderLines
  simp only [hget, hup, hconn, asBytes_append, hend, List.map_cons, List.map_nil, block_cons, block_nil,
    List.append_assoc, List.append_nil]

theorem cr_notMem_decimal (n : ℕ) : '\r' ∉ decimal n := by
  intro h
  have := Nat.isDigit_of_mem_toDigits (b := 10) (by decide) (by decide) h
  revert this
  decide

theorem cr_notMem_webSocketKey (rnd : HttpRandom) : '\r' ∉ webSocketKey rnd := by
  unfold webSocketKey Base64.encode
  rw [List.mem_append]
  rintro (h | h)
  · obtain ⟨v, hv, he⟩ := List.mem_map.1 h
    have hlt := Base64.sextets_lt _ v hv
    have hne : ∀ v < 64, Base64.urlSafe v ≠ '\r' := by decide
    exact hne v hlt he
  · exact absurd (List.eq_of_mem_replicate h) (by decide)

/-- no line of the builder is empty or contains a carriage return -/
theorem builderLines_clean (rnd : HttpRandom) (bodyLen : ℕ) :
    ∀ l ∈ (builderLines rnd bodyLen).map asBytes, l ≠ [] ∧ 13 ∉ l := by
  have h1 := cr_notMem_decimal
  have h2 := cr_notMem_webSocketKey rnd
  have hclean : ∀ l ∈ builderLines rnd bodyLen, l ≠ [] ∧ '\r' ∉ l := by
    unfold builderLines
    simp only [List.mem_cons, List.not_mem_nil, or_false]
    rintro l (rfl | rfl | rfl | rfl | rfl)
    · exact ⟨by simp, by simp [h1]⟩
    · exact ⟨by simp, by decide⟩
    · exact ⟨by simp, by decide⟩
    · exact ⟨by simp, by simp [h2]⟩
    · exact ⟨by simp, by simp [h1]⟩
  intro l hl
  obtain ⟨s, hs, rfl⟩ := List.mem_map.1 hl
  exact ⟨asBytes_ne_nil (hclean s hs).1, cr_notMem_asBytes (hclean s hs).2⟩

/-- the header ends at the first empty line after the `Host` line -/
theorem builderLines_end (rnd : HttpRandom) (bodyLen : ℕ) (body : List UInt8) :
    FirstOccurs crlfCrlf (textBlock (builderLines rnd bodyLen) ++ ([13, 10] ++ body))
      ((textBlock (builderLines rnd bodyLen)).length - 2) :=
  firstOccurs_block (by decide) (by simp [builderLines])
    (fun l hl => (builderLines_clean rnd bodyLen l hl).imp_right not_infix_of_notMem) body

/-! ## What a peer takes off the wire -/

/-- the payload on the wire: everything after the fake request, which ends at the first empty line after the `Host`
line; an empty wire carries nothing, and a wire that starts otherwise is none of ours -/
def httpPayload (host : List Char) (port : UInt16) (wire : List UInt8) : Option (List UInt8) :=
  let head := textBlock (serverLines host port)
  if wire = [] then some []
  else if wire.take head.length = head then
    let rest := wire.drop head.length
    (findDoubleCrlf rest).map fun idx => rest.drop (idx + 4)
  else none

theorem httpPayload_request (rnd : HttpRandom) (host : List Char) (port : UInt16) (body later : List UInt8) :
    httpPayload host port (buildHttpRequest rnd host port body ++ later) = some (body ++ later) := by
  have hlen : 2 ≤ (textBlock (builderLines rnd body.length)).length := by
    unfold textBlock builderLines
    simp only [List.map_cons, block_cons, List.length_append, List.length_cons, List.length_nil]
    omega
  have hfind := findDoubleCrlf_eq_some.2 (builderLines_end rnd body.length (body ++ later))
  rw [buildHttpRequest_eq]
  generalize textBlock (builderLines rnd body.length) = tail at hlen hfind
  have hne : textBlock (serverLines host port) ++ (tail ++ ([13, 10] ++ body)) ++ later ≠ [] := by simp
  unfold httpPayload
  simp only [List.append_assoc] at hne hfind ⊢
  rw [if_neg hne, List.take_left, if_pos rfl, List.drop_left, hfind, Option.map_some]
  have : tail.length - 2 + 4 = tail.length + 2 := by omega
  rw [this, ← List.drop_drop, List.drop_left]
  rfl

end ShadowsocksOhos
