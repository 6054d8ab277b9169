/-
What a server makes of the first write of HTTP simple-obfs, for the wrapper that a plugin's options call for
(`plugin.rs`: `parse_plugin`, `wrap_stream`). The host of the options, or of the server entry when the options have none,
goes into the `Host` line as it is.

- `readRequest`: the server looks for the first empty line, as the one in the repository's test does; what stands before
it are the header lines, what stands after it is the payload.
- `request_undone_iff`: it finds the seven lines and the payload if and only if the host contains no end of line.
- `injected`: a host of two lines, with an empty line between them.
-/
import ShadowsocksOhos.Ffi.PluginOpts
import ShadowsocksOhos.Plugin.TlsWrite

namespace ShadowsocksOhos

open Polled Occurs

/-! ## The wrapper -/

inductive Wrapped where
  | http (o : HttpObfs)
  | tls (o : TlsObfs)

/-- the host that goes into the obfuscation: that of the options, or the server's -/
def obfsHost (serverHost host : Text) : Text := if host = [] then serverHost else host

/-- `wrap_stream` around the connected TCP stream; v2ray-plugin connects on its own -/
def wrapStream (recv : Source UInt8 IoError) (send : Sink UInt8 IoError) (serverHost : Text) (serverPort : UInt16) :
    PluginKind → Option Wrapped
  | .simpleObfsHttp host => some (.http (.new recv send (obfsHost serverHost host) serverPort))
  | .simpleObfsTls host => some (.tls (.new recv send (obfsHost serverHost host)))
  | .v2ray _ => none

/-! ## The server's view -/

/-- the header lines of a request and what stands after the first empty line -/
def readRequest (req : List UInt8) : Option (List (List UInt8) × List UInt8) :=
  (findDoubleCrlf req).map fun idx => (splitLines 13 10 (req.take idx), req.drop (idx + 4))

/-- the lines that the builder writes -/
def headerLines (rnd : HttpRandom) (host : Text) (port : UInt16) (bodyLen : ℕ) : List Text :=
  serverLines host port ++ builderLines rnd bodyLen

/-- the server finds the header lines and the payload; the first empty line is the one before the payload -/
structure Undone (rnd : HttpRandom) (host : Text) (port : UInt16) (body req : List UInt8) : Prop where
  first : findDoubleCrlf req = some (req.length - body.length - 4)
  read : readRequest req = some ((headerLines rnd host port body.length).map asBytes, body)

/-! ## Ends of line in a text and in its bytes -/

theorem asBytes_cons (c : Char) (s : Text) : asBytes (c :: s) = String.utf8EncodeChar c ++ asBytes s := List.flatMap_cons

/-- a byte below 128 stands alone for its character -/
theorem utf8EncodeChar_ascii {c : Char} (h : c.toNat < 128) : String.utf8EncodeChar c = [UInt8.ofNat c.toNat] := by
  have hc : c.val.toNat = c.toNat := rfl
  unfold String.utf8EncodeChar
  rw [hc, if_pos (by omega)]

theorem infix_asBytes {s : Text} : [13, 10] <:+: asBytes s ↔ ['\r', '\n'] <:+: s := by
  have hcr : String.utf8EncodeChar '\r' = [13] := utf8EncodeChar_ascii (by decide)
  have hlf : String.utf8EncodeChar '\n' = [10] := utf8EncodeChar_ascii (by decide)
  constructor
  · intro h
    induction s with
    | nil => exact absurd (List.infix_nil.1 h) (List.cons_ne_nil _ _)
    | cons c s ih =>
      rw [asBytes_cons] at h
      by_cases hc : (13 : UInt8) ∈ String.utf8EncodeChar c
      · have hn : c.toNat = 13 := mem_utf8EncodeChar hc (by decide)
        obtain rfl : c = '\r' := Char.ext (UInt32.toNat_inj.1 hn)
        rw [hcr] at h
        rcases List.infix_cons_iff.1 h with hp | hi
        · -- the next byte is a line feed, so the next character is
          obtain ⟨-, hp⟩ := List.cons_prefix_cons.1 hp
          cases s with
          | nil => exact absurd (List.prefix_nil.1 hp) (List.cons_ne_nil _ _)
          | cons d s =>
            obtain ⟨x, xs, hx⟩ := List.exists_cons_of_ne_nil (asBytes_ne_nil (List.cons_ne_nil d []))
            have hd : String.utf8EncodeChar d = x :: xs := by simpa [asBytes] using hx
            rw [asBytes_cons, hd] at hp
            obtain ⟨rfl, -⟩ := List.cons_prefix_cons.1 hp
            have hdn : d.toNat = 10 := mem_utf8EncodeChar (hd ▸ List.mem_cons_self) (by decide)
            obtain rfl : d = '\n' := Char.ext (UInt32.toNat_inj.1 hdn)
            exact ⟨[], s, rfl⟩
        · exact (ih hi).trans (List.suffix_cons _ _).isInfix
      · exact (ih (infix_of_append_left hc h)).trans (List.suffix_cons _ _).isInfix
  · rintro ⟨a, b, rfl⟩
    refine ⟨asBytes a, asBytes b, ?_⟩
    rw [asBytes_append, asBytes_append, asBytes_cons, asBytes_cons, hcr, hlf]
    rfl

/-- the line is as free of ends of line as the host in it -/
theorem infix_hostLine {host : Text} {port : UInt16} :
    ['\r', '\n'] <:+: "Host: ".toList ++ hostHeader host port ↔ ['\r', '\n'] <:+: host := by
  have hport : '\n' ∉ ":".toList ++ decimal port.toNat := by
    rw [List.mem_append, not_or]
    refine ⟨by decide, fun h => ?_⟩
    have := Nat.isDigit_of_mem_toDigits (b := 10) (by decide) (by decide) h
    revert this
    decide
  unfold hostHeader
  constructor
  · intro h
    have h' := infix_of_append_left (by decide) h
    split_ifs at h'
    · exact h'
    · rw [List.append_assoc] at h'
      exact infix_of_append_right hport h'
  · intro h
    have hheader : host <:+: if port = 80 then host else host ++ ":".toList ++ decimal port.toNat := by
      split_ifs
      · exact List.infix_refl _
      · rw [List.append_assoc]
        exact (List.prefix_append _ _).isInfix
    exact h.trans (hheader.trans (List.suffix_append _ _).isInfix)

/-! ## The request is read back exactly when it can be -/

theorem buildHttpRequest_block (rnd : HttpRandom) (host : Text) (port : UInt16) (body : List UInt8) :
    buildHttpRequest rnd host port body = textBlock (headerLines rnd host port body.length) ++ ([13, 10] ++ body) := by
  rw [buildHttpRequest_eq]
  unfold textBlock headerLines
  rw [List.map_append, block_append, List.append_assoc]

/-- no line is empty, and none contains an end of line -/
theorem headerLines_clean (rnd : HttpRandom) {host : Text} (port : UInt16) (bodyLen : ℕ)
    (hfree : ¬ ['\r', '\n'] <:+: host) :
    ∀ l ∈ (headerLines rnd host port bodyLen).map asBytes, l ≠ [] ∧ ¬ [13, 10] <:+: l := by
  intro l hl
  unfold headerLines at hl
  rw [List.map_append, List.mem_append] at hl
  rcases hl with hl | hl
  · obtain ⟨s, hs, rfl⟩ := List.mem_map.1 hl
    have hline : s ≠ [] ∧ ¬ ['\r', '\n'] <:+: s := by
      simp only [serverLines, List.mem_cons, List.not_mem_nil, or_false] at hs
      rcases hs with rfl | rfl
      · exact ⟨by decide, by decide⟩
      · exact ⟨by simp, infix_hostLine.not.2 hfree⟩
    exact ⟨asBytes_ne_nil hline.1, infix_asBytes.not.2 hline.2⟩
  · exact (builderLines_clean rnd bodyLen l hl).imp_right not_infix_of_notMem

/-- without an end of line in the host the request is read back -/
theorem undone_of_free (rnd : HttpRandom) {host : Text} (port : UInt16) (body : List UInt8)
    (hfree : ¬ ['\r', '\n'] <:+: host) : Undone rnd host port body (buildHttpRequest rnd host port body) := by
  have hclean := headerLines_clean rnd port body.length hfree
  have hne : (headerLines rnd host port body.length).map asBytes ≠ [] := by simp [headerLines, serverLines]
  obtain ⟨header, hblock, hsplit⟩ := splitLines_block (by decide) hne fun l hl => (hclean l hl).2
  have hblock' : textBlock (headerLines rnd host port body.length) = header ++ [13, 10] := hblock
  have hend := firstOccurs_block (by decide) hne hclean body
  rw [hblock] at hend
  have hfind : findDoubleCrlf (header ++ [13, 10] ++ ([13, 10] ++ body)) = some header.length := by
    have hlen : (header ++ [(13 : UInt8), 10]).length - 2 = header.length := by simp
    rw [findDoubleCrlf_eq_some, ← hlen]
    exact hend
  have htake : (header ++ [13, 10] ++ ([13, 10] ++ body)).take header.length = header := by
    rw [List.append_assoc]
    exact List.take_left
  have hdrop : (header ++ [13, 10] ++ ([13, 10] ++ body)).drop (header.length + 4) = body := by
    rw [← List.append_assoc]
    exact List.drop_left' (by simp)
  rw [buildHttpRequest_block, hblock']
  refine ⟨?_, ?_⟩
  · rw [hfind]
    congr 1
    simp only [List.length_append, List.length_cons, List.length_nil]
    omega
  · unfold readRequest
    rw [hfind, Option.map_some, htake, hdrop, hsplit]

/-- a request that is read back has no end of line in its host -/
theorem free_of_undone {rnd : HttpRandom} {host : Text} {port : UInt16} {body req : List UInt8}
    (h : Undone rnd host port body req) : ¬ ['\r', '\n'] <:+: host := by
  obtain ⟨idx, -, hread⟩ := Option.map_eq_some_iff.1 h.read
  obtain ⟨hlines, -⟩ := Prod.mk.inj hread
  have hmem : asBytes ("Host: ".toList ++ hostHeader host port) ∈ splitLines 13 10 (req.take idx) := by
    rw [hlines]
    exact List.mem_map_of_mem (by simp [headerLines, serverLines])
  have hfree := splitLines_free _ _ hmem
  rw [infix_asBytes, infix_hostLine] at hfree
  exact hfree

/-- the first write puts the request on the wire -/
theorem pollWrite_request (rnd : HttpRandom) (recv : Source UInt8 IoError) (plan : ℕ → WriteAnswer IoError) (host : Text)
    (port : UInt16) (body : List UInt8) :
    ((HttpObfs.new recv ⟨[], plan⟩ host port).pollWrite rnd body).2.write.wire = buildHttpRequest rnd host port body := by
  have hsends := WriteHalf.resume_sends ⟨⟨[], plan⟩, false, buildHttpRequest rnd host port body, 0, body.length⟩
  have hwrite : ((HttpObfs.new recv ⟨[], plan⟩ host port).pollWrite rnd body).2.write =
      (WriteHalf.resume ⟨⟨[], plan⟩, false, buildHttpRequest rnd host port body, 0, body.length⟩).2 := by
    unfold HttpObfs.pollWrite HttpObfs.offer HttpObfs.new WriteHalf.new WriteHalf.accept
    simp only [List.isEmpty_nil, Bool.not_true, Bool.false_eq_true, if_false, if_true]
  rw [hwrite, hsends.wire]
  unfold WriteHalf.wire WriteHalf.unsent
  rw [List.nil_append, List.drop_zero]

/-- **When the request is undone.** The options of a plugin give the HTTP wrapper `o`. Whatever is written first, and
whatever the socket does, a server finds in it the seven header lines and the payload if and only if the host contains no
end of line. -/
theorem request_undone_iff (name opts serverHost : Text) (serverPort : UInt16) (recv : Source UInt8 IoError)
    (plan : ℕ → WriteAnswer IoError) (o : HttpObfs)
    (h : (parsePlugin name opts).toOption.bind (wrapStream recv ⟨[], plan⟩ serverHost serverPort) = some (.http o)) :
    (∃ host, parsePlugin name opts = .ok (.simpleObfsHttp host) ∧ o.host = obfsHost serverHost host ∧
      o.port = serverPort) ∧
    ∀ rnd body, Undone rnd o.host o.port body (o.pollWrite rnd body).2.write.wire ↔ ¬ ['\r', '\n'] <:+: o.host := by
  obtain ⟨kind, hkind, hwrap⟩ := Option.bind_eq_some_iff.1 h
  have hparse : parsePlugin name opts = .ok kind := by
    cases hp : parsePlugin name opts with
    | error e => rw [hp] at hkind; cases hkind
    | ok k => rw [hp] at hkind; cases hkind; rfl
  cases kind with
  | simpleObfsHttp host =>
    cases hwrap
    refine ⟨⟨host, hparse, rfl, rfl⟩, ?_⟩
    intro rnd body
    rw [pollWrite_request]
    exact ⟨free_of_undone, undone_of_free rnd serverPort body⟩
  | simpleObfsTls host => cases hwrap
  | v2ray cfg => cases hwrap

theorem request_undone_iff_plain : ∃ o,
    (parsePlugin "obfs-local".toList "obfs=http; obfs-host = cdn.example.com".toList).toOption.bind
      (wrapStream idle ⟨[], slowPlan⟩ "1.2.3.4".toList 8388) = some (.http o) ∧
    Undone zeroHttp o.host o.port [97, 98] (o.pollWrite zeroHttp [97, 98]).2.write.wire :=
  ⟨_, rfl, ((request_undone_iff "obfs-local".toList "obfs=http; obfs-host = cdn.example.com".toList "1.2.3.4".toList 8388 idle
    slowPlan _ rfl).2 zeroHttp [97, 98]).2 (by decide)⟩

/-- **Injected.** With an empty line in the host the payload is not found. -/
theorem injected : ¬ ∀ (name opts serverHost : Text) (serverPort : UInt16) (o : HttpObfs),
    (parsePlugin name opts).toOption.bind (wrapStream idle ⟨[], slowPlan⟩ serverHost serverPort) = some (.http o) →
      ∀ rnd body, Undone rnd o.host o.port body (o.pollWrite rnd body).2.write.wire := by
  intro h
  have hu := h "obfs-local".toList "obfs=http;obfs-host=a\r\n\r\nb".toList "1.2.3.4".toList 8388 _ rfl zeroHttp [97, 98]
  have hfree := free_of_undone hu
  revert hfree
  decide

end ShadowsocksOhos
