/-
What the first write of TLS simple-obfs looks like to somebody who walks it by its length fields, as the test of the
repository does with a short host. The host comes from the options of the plugin and may be of any length, the length
fields are sums of 16 bits.

- `readHello`: the walk, over the record, the handshake message and the extensions.
- `walk_hello`: it gives the first chunk and the host when the record length has room for them.
- `consistent_iff`: and in no other case.
- `overflowed`: an `obfs-host` of 65536 characters.
-/
import ShadowsocksOhos.Core.Prefixed
import ShadowsocksOhos.Plugin.ObfsHost

namespace ShadowsocksOhos

open Polled Prefixed

/-! ## The walk -/

/-- a ClientHello as its length fields divide it -/
structure ClientHello where
  version : List UInt8
  random : List UInt8
  sessionId : List UInt8
  cipherSuites : List UInt8
  compression : List UInt8
  extensions : List (List UInt8 × List UInt8)
deriving DecidableEq, Repr

/-- the body of a record that is all there is, of the handshake type -/
def readRecord (bytes : List UInt8) : Option (List UInt8) :=
  (fixed 3 bytes).bind fun (head, rest) => if head.take 1 = [0x16] then whole 2 rest else none

/-- the body of a handshake message that is all there is, a ClientHello -/
def readHandshake (bytes : List UInt8) : Option (List UInt8) :=
  (fixed 1 bytes).bind fun (head, rest) => if head = [0x01] then whole 3 rest else none

def readBody (bytes : List UInt8) : Option ClientHello :=
  (fixed 2 bytes).bind fun (version, rest) =>
  (fixed 32 rest).bind fun (random, rest) =>
  (field 1 rest).bind fun (sessionId, rest) =>
  (field 2 rest).bind fun (cipherSuites, rest) =>
  (field 1 rest).bind fun (compression, rest) =>
  (whole 2 rest).bind fun list =>
  (items 2 2 list).map fun extensions => ⟨version, random, sessionId, cipherSuites, compression, extensions⟩

def readHello (bytes : List UInt8) : Option ClientHello := ((readRecord bytes).bind readHandshake).bind readBody

/-- the host of a `server_name` extension: a list of one name, of type 0 -/
def readServerName (bytes : List UInt8) : Option (List UInt8) :=
  ((whole 2 bytes).bind (items 1 2)).bind fun names =>
    match names with
    | [([0x00], name)] => some name
    | _ => none

/-- the content of the extension of this type -/
def ClientHello.extension (h : ClientHello) (type : List UInt8) : Option (List UInt8) := h.extensions.lookup type

/-- the session ticket and the server name of a ClientHello -/
def walkHello (bytes : List UInt8) : Option (List UInt8 × List UInt8) :=
  (readHello bytes).bind fun h =>
  (h.extension [0x00, 0x23]).bind fun ticket =>
  ((h.extension [0x00, 0x00]).bind readServerName).map fun name => (ticket, name)

/-- the sums of `build_client_hello` fit into 16 bits; the two lengths are cut to 16 bits before -/
structure SumsFit (data server : List UInt8) : Prop where
  record : 212 + data.length % 65536 + server.length % 65536 < 65536
  handshake : 208 + data.length % 65536 + server.length % 65536 < 65536
  extensions : 79 + data.length % 65536 + server.length % 65536 < 65536
  serverName : server.length % 65536 + 5 < 65536
  nameList : server.length % 65536 + 3 < 65536

/-- the walk reaches the end and gives the chunk and the host, and no sum has overflowed -/
structure SelfConsistent (hello data server : List UInt8) : Prop where
  walked : walkHello hello = some (data, server)
  sums : SumsFit data server

theorem sumsFit_of_lt {data server : List UInt8} (h : 212 + data.length + server.length < 65536) : SumsFit data server := by
  constructor <;> omega

/-! ## The length fields -/

theorem number_toBeBytes {n : UInt16} : number (toBeBytes n) = n.toNat := by
  obtain ⟨hi, lo, hbe, hlen⟩ := TlsObfs.fromBeBytes_toBeBytes n.toNat (by have := n.toNat_lt; omega)
  rw [UInt16.ofNat_toNat] at hbe
  rw [hbe, ← hlen]
  simp [number, fromBeBytes]

/-- a sum that fits is the number that its bytes spell -/
theorem number_sum {k d s : ℕ} (h : k + d + s < 65536) :
    number (toBeBytes (UInt16.ofNat k + UInt16.ofNat d + UInt16.ofNat s)) = k + d + s := by
  rw [number_toBeBytes, UInt16.toNat_add, UInt16.toNat_add, UInt16.toNat_ofNat', UInt16.toNat_ofNat', UInt16.toNat_ofNat']
  omega

theorem number_plus {k s : ℕ} (h : s + k < 65536) : number (toBeBytes (UInt16.ofNat s + UInt16.ofNat k)) = s + k := by
  rw [number_toBeBytes, UInt16.toNat_add, UInt16.toNat_ofNat', UInt16.toNat_ofNat']
  omega

/-- a length of 16 bits in front of what it counts -/
def lengthField (n : ℕ) : List UInt8 := toBeBytes (UInt16.ofNat n)

theorem number_lengthField {n : ℕ} (h : n < 65536) : number (lengthField n) = n := by
  rw [lengthField, number_toBeBytes, UInt16.toNat_ofNat', Nat.mod_eq_of_lt h]

/-! ## The parts of the hello -/

/-- the content of the `server_name` extension -/
def serverNameBytes (server : List UInt8) : List UInt8 :=
  toBeBytes (UInt16.ofNat server.length + 3) ++ encodeItems lengthField [([0x00], server)]

/-- the extensions with their types -/
def extensionsOf (data server : List UInt8) : List (List UInt8 × List UInt8) :=
  [([0x00, 0x23], data), ([0x00, 0x00], serverNameBytes server), ([0x00, 0x0b], [0x03, 0x01, 0x00, 0x02]),
    ([0x00, 0x0a], [0x00, 0x08, 0x00, 0x1d, 0x00, 0x17, 0x00, 0x19, 0x00, 0x18]),
    ([0x00, 0x0d], signatureAlgorithms.drop 4), ([0x00, 0x16], []), ([0x00, 0x17], [])]

/-- the handshake message without its header -/
def bodyBytes (rnd : HelloRandom) (data server : List UInt8) : List UInt8 :=
  [0x03, 0x03] ++ ((toBeBytes32 rnd.now ++ rnd.random.toList) ++ ([32] ++ (rnd.sessionId.toList ++ ([0x00, 0x38] ++
    (cipherSuites ++ ([0x01] ++ ([0x00] ++
      (toBeBytes (79 + UInt16.ofNat data.length + UInt16.ofNat server.length) ++
        encodeItems lengthField (extensionsOf data server)))))))))

/-- the record without its header -/
def handshakeBytes (rnd : HelloRandom) (data server : List UInt8) : List UInt8 :=
  [0x01] ++ (([0x00] ++ toBeBytes (208 + UInt16.ofNat data.length + UInt16.ofNat server.length)) ++
    bodyBytes rnd data server)

theorem length_serverNameBytes (server : List UInt8) : (serverNameBytes server).length = server.length + 5 := by
  simp [serverNameBytes, encodeItems, lengthField, toBeBytes]

theorem length_extensions (data server : List UInt8) :
    (encodeItems lengthField (extensionsOf data server)).length = 79 + data.length + server.length := by
  have hsig : (signatureAlgorithms.drop 4).length = 32 := rfl
  simp [encodeItems, extensionsOf, lengthField, toBeBytes, length_serverNameBytes, hsig]
  omega

theorem length_bodyBytes (rnd : HelloRandom) (data server : List UInt8) :
    (bodyBytes rnd data server).length = 208 + data.length + server.length := by
  have hsuites : cipherSuites.length = 56 := rfl
  simp [bodyBytes, toBeBytes, toBeBytes32, length_extensions, hsuites]
  omega

theorem length_handshakeBytes (rnd : HelloRandom) (data server : List UInt8) :
    (handshakeBytes rnd data server).length = 212 + data.length + server.length := by
  simp [handshakeBytes, toBeBytes, length_bodyBytes]
  omega

/-- the extensions as the code writes them -/
theorem encode_extensions (data server : List UInt8) :
    encodeItems lengthField (extensionsOf data server) =
      [0x00, 0x23] ++ toBeBytes (UInt16.ofNat data.length) ++ data ++
      [0x00, 0x00] ++ toBeBytes (UInt16.ofNat server.length + 5) ++ toBeBytes (UInt16.ofNat server.length + 3) ++ [0x00] ++
        toBeBytes (UInt16.ofNat server.length) ++ server ++
      [0x00, 0x0b, 0x00, 0x04, 0x03, 0x01, 0x00, 0x02] ++
      [0x00, 0x0a, 0x00, 0x0a, 0x00, 0x08, 0x00, 0x1d, 0x00, 0x17, 0x00, 0x19, 0x00, 0x18] ++
      signatureAlgorithms ++ [0x00, 0x16, 0x00, 0x00] ++ [0x00, 0x17, 0x00, 0x00] := by
  have hsig : signatureAlgorithms = [0x00, 0x0d, 0x00, 0x20] ++ signatureAlgorithms.drop 4 := rfl
  have hname : lengthField (serverNameBytes server).length = toBeBytes (UInt16.ofNat server.length + 5) := by
    rw [length_serverNameBytes, lengthField, UInt16.ofNat_add]
    rfl
  have hfour : lengthField 4 = [0x00, 0x04] := rfl
  have hten : lengthField 10 = [0x00, 0x0a] := rfl
  have hlast : lengthField (signatureAlgorithms.drop 4).length = [0x00, 0x20] := rfl
  have hzero : lengthField 0 = [0x00, 0x00] := rfl
  conv_rhs => rw [hsig]
  simp only [encodeItems, extensionsOf, List.flatMap_cons, List.flatMap_nil, hname, hlast, List.length_cons, List.length_nil,
    Nat.reduceAdd, hfour, hten, hzero]
  simp only [serverNameBytes, encodeItems, List.flatMap_cons, List.flatMap_nil, lengthField, List.append_assoc,
    List.cons_append, List.nil_append, List.append_nil]

/-- the hello in its parts -/
theorem buildClientHello_parts (rnd : HelloRandom) (data : List UInt8) (server : List Char) :
    buildClientHello rnd data server =
      [0x16, 0x03, 0x01] ++ (toBeBytes (212 + UInt16.ofNat data.length + UInt16.ofNat (asBytes server).length) ++
        handshakeBytes rnd data (asBytes server)) := by
  unfold buildClientHello handshakeBytes bodyBytes
  rw [encode_extensions]
  dsimp only
  simp only [List.append_assoc, List.cons_append, List.nil_append]

/-! ## The walk through the hello -/

theorem readRecord_eq_some {len body record : List UInt8} (hw : len.length = 2) :
    readRecord ([0x16, 0x03, 0x01] ++ (len ++ body)) = some record ↔ number len = body.length ∧ record = body := by
  have hfixed : fixed 3 ([0x16, 0x03, 0x01] ++ (len ++ body)) = some ([0x16, 0x03, 0x01], len ++ body) :=
    fixed_append (by rfl) _
  have hread : readRecord ([0x16, 0x03, 0x01] ++ (len ++ body)) = whole 2 (len ++ body) := by
    unfold readRecord
    rw [hfixed]
    rfl
  rw [hread, whole_eq_some]
  constructor
  · rintro ⟨len', hbytes, hw', hn⟩
    obtain ⟨rfl, rfl⟩ := List.append_inj hbytes (hw.trans hw'.symm)
    exact ⟨hn, rfl⟩
  · rintro ⟨hn, rfl⟩
    exact ⟨len, rfl, hw, hn⟩

theorem readHandshake_eq {len body : List UInt8} (hw : len.length = 3) (hn : number len = body.length) :
    readHandshake ([0x01] ++ (len ++ body)) = some body := by
  have hfixed : fixed 1 ([0x01] ++ (len ++ body)) = some ([0x01], len ++ body) := fixed_append (by rfl) _
  unfold readHandshake
  rw [hfixed]
  exact whole_append hw hn

/-- a zero in front of a length -/
theorem number_zero_cons (bytes : List UInt8) : number ([0x00] ++ bytes) = number bytes := rfl

/-- tagged fields that are short enough are read back -/
theorem items_lengthField {t : ℕ} (hpos : 0 < t) {its : List (List UInt8 × List UInt8)}
    (h : ∀ x ∈ its, x.1.length = t ∧ x.2.length < 65536) : items t 2 (encodeItems lengthField its) = some its :=
  items_encodeItems hpos (fun x hx => (h x hx).1) fun x hx => ⟨rfl, number_lengthField (h x hx).2⟩

theorem readServerName_eq {server : List UInt8} (h : server.length + 5 < 65536) :
    readServerName (serverNameBytes server) = some server := by
  have hlen : (encodeItems lengthField [([0x00], server)]).length = server.length + 3 := by
    simp [encodeItems, lengthField, toBeBytes]
  have hnum : number (toBeBytes (UInt16.ofNat server.length + 3)) = server.length + 3 := number_plus (k := 3) (by omega)
  have hwhole : whole 2 (serverNameBytes server) = some (encodeItems lengthField [([0x00], server)]) :=
    whole_append rfl (hnum.trans hlen.symm)
  have hitems : items 1 2 (encodeItems lengthField [([0x00], server)]) = some [([0x00], server)] := by
    refine items_lengthField one_pos fun x hx => ?_
    obtain rfl := List.mem_singleton.1 hx
    exact ⟨rfl, by dsimp only; omega⟩
  unfold readServerName
  rw [hwhole, Option.bind_some, hitems]
  rfl

/-- the body of the hello, walked -/
theorem readBody_eq (rnd : HelloRandom) {data server : List UInt8} (h : 212 + data.length + server.length < 65536) :
    readBody (bodyBytes rnd data server) = some ⟨[0x03, 0x03], toBeBytes32 rnd.now ++ rnd.random.toList,
      rnd.sessionId.toList, cipherSuites, [0x00], extensionsOf data server⟩ := by
  have hrandom : (toBeBytes32 rnd.now ++ rnd.random.toList).length = 32 := by simp [toBeBytes32]
  have hsession : number [32] = rnd.sessionId.toList.length := by rw [Vector.length_toList]; rfl
  have hsum : number (toBeBytes (79 + UInt16.ofNat data.length + UInt16.ofNat server.length)) =
      (encodeItems lengthField (extensionsOf data server)).length :=
    (number_sum (k := 79) (by omega)).trans (length_extensions data server).symm
  have hitems : items 2 2 (encodeItems lengthField (extensionsOf data server)) = some (extensionsOf data server) := by
    refine items_lengthField two_pos fun x hx => ?_
    simp only [extensionsOf, List.mem_cons, List.not_mem_nil, or_false] at hx
    rcases hx with rfl | rfl | rfl | rfl | rfl | rfl | rfl <;> refine ⟨rfl, ?_⟩
    · dsimp only
      omega
    · rw [length_serverNameBytes]
      omega
    all_goals decide
  have hversion : ∀ rest, fixed 2 ([0x03, 0x03] ++ rest) = some ([0x03, 0x03], rest) := fixed_append rfl
  have hsessionId : ∀ rest, field 1 ([32] ++ (rnd.sessionId.toList ++ rest)) = some (rnd.sessionId.toList, rest) :=
    field_append rfl hsession
  have hsuites : ∀ rest, field 2 ([0x00, 0x38] ++ (cipherSuites ++ rest)) = some (cipherSuites, rest) :=
    field_append rfl rfl
  have hcompression : ∀ rest, field 1 ([0x01] ++ ([0x00] ++ rest)) = some ([0x00], rest) := field_append rfl rfl
  have hlist := whole_append (w := 2) rfl hsum
  unfold readBody bodyBytes
  simp only [hversion, fixed_append hrandom, hsessionId, hsuites, hcompression, hlist, hitems, Option.bind_some,
    Option.map_some]

theorem lookup_ticket (data server : List UInt8) : (extensionsOf data server).lookup [0x00, 0x23] = some data := rfl

theorem lookup_serverName (data server : List UInt8) :
    (extensionsOf data server).lookup [0x00, 0x00] = some (serverNameBytes server) := rfl

/-- the whole hello, walked -/
theorem walk_hello (rnd : HelloRandom) {data : List UInt8} {server : List Char}
    (h : 212 + data.length + (asBytes server).length < 65536) :
    walkHello (buildClientHello rnd data server) = some (data, asBytes server) := by
  have hrecord : number (toBeBytes (212 + UInt16.ofNat data.length + UInt16.ofNat (asBytes server).length)) =
      (handshakeBytes rnd data (asBytes server)).length :=
    (number_sum (k := 212) h).trans (length_handshakeBytes rnd data _).symm
  have hbody : number ([0x00] ++ toBeBytes (208 + UInt16.ofNat data.length + UInt16.ofNat (asBytes server).length)) =
      (bodyBytes rnd data (asBytes server)).length :=
    (number_zero_cons _).trans ((number_sum (k := 208) (by omega)).trans (length_bodyBytes rnd data _).symm)
  have hname : readServerName (serverNameBytes (asBytes server)) = some (asBytes server) := readServerName_eq (by omega)
  have hhandshake : readHandshake (handshakeBytes rnd data (asBytes server)) = some (bodyBytes rnd data (asBytes server)) :=
    readHandshake_eq rfl hbody
  have hhello : readHello (buildClientHello rnd data server) = readBody (bodyBytes rnd data (asBytes server)) := by
    rw [buildClientHello_parts, readHello, (readRecord_eq_some rfl).2 ⟨hrecord, rfl⟩, Option.bind_some, hhandshake,
      Option.bind_some]
  unfold walkHello ClientHello.extension
  rw [hhello, readBody_eq rnd h, Option.bind_some, lookup_ticket, Option.bind_some, lookup_serverName, Option.bind_some,
    hname, Option.map_some]

/-- when the record length counts the record, nothing has overflowed -/
theorem fits_of_walk {rnd : HelloRandom} {data : List UInt8} {server : List Char} {x : List UInt8 × List UInt8}
    (h : walkHello (buildClientHello rnd data server) = some x) :
    212 + data.length + (asBytes server).length < 65536 := by
  obtain ⟨hello, hread, -⟩ := Option.bind_eq_some_iff.1 h
  obtain ⟨body, hbody, -⟩ := Option.bind_eq_some_iff.1 hread
  obtain ⟨record, hrecord, -⟩ := Option.bind_eq_some_iff.1 hbody
  rw [buildClientHello_parts] at hrecord
  obtain ⟨hnumber, -⟩ := (readRecord_eq_some rfl).1 hrecord
  rw [number_toBeBytes, length_handshakeBytes] at hnumber
  rw [← hnumber]
  exact UInt16.toNat_lt _

/-- the first write puts the hello on the wire -/
theorem pollWrite_hello (rnd : HelloRandom) (recv : Source UInt8 IoError) (plan : ℕ → WriteAnswer IoError)
    (server : List Char) {buf : List UInt8} (hbuf : buf ≠ []) :
    ((TlsObfs.new recv ⟨[], plan⟩ server).pollWrite rnd buf).2.write.wire =
      buildClientHello rnd (buf.take TlsObfs.chunkSize) server := by
  have htake : buf.take (min buf.length TlsObfs.chunkSize) = buf.take TlsObfs.chunkSize := by
    rw [Nat.min_comm, ← List.take_take, List.take_length]
  have hsends := WriteHalf.resume_sends ⟨⟨[], plan⟩, false, buildClientHello rnd (buf.take TlsObfs.chunkSize) server, 0,
    min buf.length TlsObfs.chunkSize⟩
  have hwrite : ((TlsObfs.new recv ⟨[], plan⟩ server).pollWrite rnd buf).2.write =
      (WriteHalf.resume ⟨⟨[], plan⟩, false, buildClientHello rnd (buf.take TlsObfs.chunkSize) server, 0,
        min buf.length TlsObfs.chunkSize⟩).2 := by
    have hempty : buf.isEmpty = false := by simpa using hbuf
    unfold TlsObfs.pollWrite TlsObfs.offer TlsObfs.new WriteHalf.new WriteHalf.accept
    simp only [List.isEmpty_nil, Bool.not_true, Bool.false_eq_true, if_false, if_true, hempty, htake]
  rw [hwrite, hsends.wire]
  unfold WriteHalf.wire WriteHalf.unsent
  rw [List.nil_append, List.drop_zero]

/-- **When the hello is consistent.** The options of a plugin give the TLS wrapper `o`. Whatever is written first, walking
the bytes by their length fields gives the first chunk and the host, and no sum overflows, if and only if the record
length has room for both. -/
theorem consistent_iff (name opts serverHost : Text) (serverPort : UInt16) (recv : Source UInt8 IoError)
    (plan : ℕ → WriteAnswer IoError) (o : TlsObfs)
    (h : (parsePlugin name opts).toOption.bind (wrapStream recv ⟨[], plan⟩ serverHost serverPort) = some (.tls o)) :
    (∃ host, parsePlugin name opts = .ok (.simpleObfsTls host) ∧ o.server = obfsHost serverHost host) ∧
    ∀ rnd buf, buf ≠ [] →
      (SelfConsistent (o.pollWrite rnd buf).2.write.wire (buf.take TlsObfs.chunkSize) (asBytes o.server) ↔
        212 + min buf.length TlsObfs.chunkSize + (asBytes o.server).length < 65536) := by
  obtain ⟨kind, hkind, hwrap⟩ := Option.bind_eq_some_iff.1 h
  have hparse : parsePlugin name opts = .ok kind := by
    cases hp : parsePlugin name opts with
    | error e => rw [hp] at hkind; cases hkind
    | ok k => rw [hp] at hkind; cases hkind; rfl
  cases kind with
  | simpleObfsHttp host => cases hwrap
  | simpleObfsTls host =>
    cases hwrap
    refine ⟨⟨host, hparse, rfl⟩, ?_⟩
    intro rnd buf hbuf
    have hlen : (buf.take TlsObfs.chunkSize).length = min buf.length TlsObfs.chunkSize := by
      rw [List.length_take, Nat.min_comm]
    rw [pollWrite_hello rnd recv plan _ hbuf, ← hlen]
    constructor
    · intro hc
      exact fits_of_walk hc.walked
    · intro hfits
      exact ⟨walk_hello rnd hfits, sumsFit_of_lt hfits⟩
  | v2ray cfg => cases hwrap

theorem consistent_iff_plain : ∃ o,
    (parsePlugin "obfs-local".toList "obfs=tls".toList).toOption.bind
      (wrapStream idle ⟨[], slowPlan⟩ "1.2.3.4".toList 8388) = some (.tls o) ∧
    ∀ rnd, SelfConsistent (o.pollWrite rnd [97, 98]).2.write.wire [97, 98] (asBytes o.server) :=
  ⟨_, rfl, fun rnd => ((consistent_iff "obfs-local".toList "obfs=tls".toList "1.2.3.4".toList 8388 idle slowPlan _ rfl).2
    rnd [97, 98] (by decide)).2 (by decide)⟩

/-! ## A host of any length -/

theorem trim_eq_self {s : Text} (h : ∀ c ∈ s, isWhiteSpace c = false) : trim s = s := by
  have hdrop : s.dropWhile isWhiteSpace = s := by
    cases s with
    | nil => rfl
    | cons c s => rw [List.dropWhile_cons_of_neg (by rw [h c List.mem_cons_self]; decide)]
  unfold trim
  rw [hdrop, List.rdropWhile_eq_self_iff]
  intro hne
  rw [h _ (List.getLast_mem hne)]
  decide

/-- the options with this host -/
def tlsOptions (host : Text) : Text := "obfs=tls".toList ++ ';' :: ("obfs-host=".toList ++ host)

theorem parse_tlsOptions {host : Text} (hsemi : ';' ∉ host) (hspace : ∀ c ∈ host, isWhiteSpace c = false) :
    parsePlugin "obfs-local".toList (tlsOptions host) = .ok (.simpleObfsTls host) := by
  have hfirst : ';' ∉ "obfs=tls".toList := by decide
  have hsecond : ';' ∉ "obfs-host=".toList ++ host := by
    rw [List.mem_append, not_or]
    exact ⟨by decide, hsemi⟩
  have hclean : ∀ c ∈ "obfs-host=".toList ++ host, isWhiteSpace c = false := by
    intro c hc
    have hkey : ("obfs-host=".toList.all fun d => !isWhiteSpace d) = true := by decide
    rcases List.mem_append.1 hc with hc | hc
    · simpa using List.all_eq_true.1 hkey c hc
    · exact hspace c hc
  have htokens : tokens (tlsOptions host) = ["obfs=tls".toList, "obfs-host=".toList ++ host] := by
    unfold tokens tlsOptions
    rw [List.splitOn_append_cons_self_of_not_mem hfirst, List.splitOn_eq_singleton hsecond, List.map_cons, List.map_singleton,
      trim_eq_self hclean]
    rfl
  have hkey : keyValue [] ("obfs-host=".toList ++ host) = ("obfs-host".toList, host) := by
    have hsplit : splitOnce '=' ("obfs-host=".toList ++ host) = some ("obfs-host".toList, host) := rfl
    unfold keyValue
    rw [hsplit]
    dsimp only
    rw [trim_eq_self hspace]
    rfl
  have hparse : parseSimpleObfsOpts (tlsOptions host) = .ok (.simpleObfsTls host) := by
    unfold parseSimpleObfsOpts
    rw [htokens, List.foldl_cons, List.foldl_cons, List.foldl_nil]
    unfold simpleObfsSetting
    rw [hkey]
    rfl
  exact hparse

/-- every character has a byte -/
theorem length_le_asBytes (s : Text) : s.length ≤ (asBytes s).length := by
  induction s with
  | nil => exact le_rfl
  | cons c s ih =>
    have hpos : 0 < (String.utf8EncodeChar c).length := by
      have hone : asBytes [c] = String.utf8EncodeChar c := by simp [asBytes]
      rw [← hone]
      exact List.length_pos_of_ne_nil (asBytes_ne_nil (List.cons_ne_nil c []))
    rw [asBytes_cons, List.length_append, List.length_cons]
    omega

/-- **Overflowed.** With a long `obfs-host` the record length counts something else. -/
theorem overflowed : ¬ ∀ (name opts serverHost : Text) (serverPort : UInt16) (o : TlsObfs),
    (parsePlugin name opts).toOption.bind (wrapStream idle ⟨[], slowPlan⟩ serverHost serverPort) = some (.tls o) →
      ∀ rnd buf, buf ≠ [] →
        SelfConsistent (o.pollWrite rnd buf).2.write.wire (buf.take TlsObfs.chunkSize) (asBytes o.server) := by
  intro h
  obtain ⟨host, hhost, hmem⟩ : ∃ host : Text, host.length = 65536 ∧ ∀ c ∈ host, c = 'a' :=
    ⟨List.replicate 65536 'a', List.length_replicate, fun c hc => List.eq_of_mem_replicate hc⟩
  have hne : host ≠ [] := List.ne_nil_of_length_pos (by omega)
  have hparse : parsePlugin "obfs-local".toList (tlsOptions host) = .ok (.simpleObfsTls host) :=
    parse_tlsOptions (fun hc => absurd (hmem _ hc) (by decide)) (fun c hc => by rw [hmem c hc]; decide)
  have hwrap : (parsePlugin "obfs-local".toList (tlsOptions host)).toOption.bind
      (wrapStream idle ⟨[], slowPlan⟩ "1.2.3.4".toList 8388) = some (.tls (.new idle ⟨[], slowPlan⟩ host)) := by
    rw [hparse]
    show some (Wrapped.tls (.new idle ⟨[], slowPlan⟩ (obfsHost "1.2.3.4".toList host))) = _
    rw [obfsHost, if_neg hne]
  have hbuf : ([97] : List UInt8) ≠ [] := List.cons_ne_nil _ _
  have hwalked := (h _ _ _ _ _ hwrap zeroHello [97] hbuf).walked
  rw [pollWrite_hello _ idle slowPlan host hbuf] at hwalked
  have hfits := fits_of_walk hwalked
  have hlen : host.length ≤ (asBytes host).length := length_le_asBytes host
  omega

end ShadowsocksOhos
