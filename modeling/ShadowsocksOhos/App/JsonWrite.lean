/-
`JsonStore.write` that is cut short: each of its calls may throw, the process may die between two of them, and `writeSync`
may store fewer bytes than it was given. What stands in the temporary file does no harm; but the number of bytes that
`writeSync` returns is not looked at, so that a short write is moved into place.

- `decode_take`: the bytes of a content that are cut off somewhere are read as its longest part in whole characters.
- `all_or_nothing`: a write leaves the old content or the new one exactly when it does not get through with a short write.
- `truncated`: one byte of three.
- `codec_exact`: what the UTF-8 codec of the store does to any string.
-/
import ShadowsocksOhos.App.JsonStore

namespace ShadowsocksOhos

namespace JsonStore

/-! ## Calls that fail -/

/-- how a call ends -/
inductive Ends where
  | returns
  | throws
  /-- the process dies before the call returns -/
  | dies
deriving DecidableEq, Repr

/-- how the calls of a `write` end -/
structure Calls where
  openSync : Ends
  writeSync : Ends
  /-- how many bytes `writeSync` stores, however it ends -/
  stored : ℕ
  closeSync : Ends
  renameSync : Ends
deriving DecidableEq, Repr

/-- the directory is there, since `mkdirSync` is allowed to throw -/
def write (c : Calls) (content : JsString) (fs : Files Path) : Files Path :=
  if c.openSync ≠ .returns then fs
  else
    let (fs, fd) := fs.openTrunc .tmp
    let fs := fs.write fd ((bytesOf content).take c.stored)
    -- the file is closed in any case, and an error of `writeSync` goes on to the caller
    if c.writeSync = .returns ∧ c.closeSync = .returns ∧ c.renameSync = .returns then fs.rename .tmp .path else fs

/-- a `read` whose calls succeed -/
def read (fs : Files Path) : JsString :=
  match fs.link .path with
  | some fd => textOf (fs.read fd (fs.size fd))
  | none => []

/-- the files after these writes of a name, one after another -/
def after (history : List (Calls × JsString)) : Files Path := history.foldl (fun fs w => write w.1 w.2 fs) ⟨[], []⟩

def Calls.Return (c : Calls) : Prop :=
  c.openSync = .returns ∧ c.writeSync = .returns ∧ c.closeSync = .returns ∧ c.renameSync = .returns

instance (c : Calls) : Decidable c.Return := inferInstanceAs (Decidable (_ ∧ _))

/-- the write succeeds in full -/
def Calls.Full (c : Calls) (content : JsString) : Prop := c.Return ∧ (bytesOf content).length ≤ c.stored

/-- the longest part of a content, from its beginning and in whole characters, with at most `n` bytes -/
def fits (n : ℕ) : JsString → JsString
  | [] => []
  | [u] => if (encodePoint u.toNat).length ≤ n then [u] else []
  | hi :: lo :: rest =>
    if isHigh hi && isLow lo then
      let bytes := encodePoint (0x10000 + ((hi.toNat - 0xd800) <<< 10) + (lo.toNat - 0xdc00))
      if bytes.length ≤ n then hi :: lo :: fits (n - bytes.length) rest else []
    else
      let bytes := encodePoint hi.toNat
      if bytes.length ≤ n then hi :: fits (n - bytes.length) (lo :: rest) else []

/-- after a write that may be cut short, a read returns the old content or the new one, and a later write that succeeds
in full is read back -/
structure AllOrNothing (fs : Files Path) (c : Calls) (content : JsString) : Prop where
  either : read (write c content fs) = read fs ∨ read (write c content fs) = content
  later : ∀ d third, Calls.Full d third → read (write d third (write c content fs)) = third

/-! ## Bytes that are cut off -/

/-- a character that is cut off is not read -/
theorem decode_cut {p n : ℕ} (hp : p < 0x110000) (h : n < (encodePoint p).length) :
    decodeUtf8 ((encodePoint p).take n) = [] := by
  have hs6 : p >>> 6 = p / 64 := Nat.shiftRight_eq_div_pow p 6
  have hs12 : p >>> 12 = p / 4096 := Nat.shiftRight_eq_div_pow p 12
  have hs18 : p >>> 18 = p / 262144 := Nat.shiftRight_eq_div_pow p 18
  unfold encodePoint at h ⊢
  simp only [and_0x3f, hs6, hs12, hs18] at h ⊢
  split_ifs at h ⊢ with h1 h2 h3 <;> simp only [List.length_cons, List.length_nil] at h
  · rw [show n = 0 by omega]
    rfl
  · obtain ⟨l1, l2, -⟩ := @lead2 (p / 64) (by omega)
    interval_cases n
    · rfl
    · simp only [List.take_succ_cons, List.take_zero, decodeUtf8, if_neg l1, if_pos l2]
  · obtain ⟨l1, l2, l3, -⟩ := @lead3 (p / 4096) (by omega)
    interval_cases n
    · rfl
    · simp only [List.take_succ_cons, List.take_zero, decodeUtf8, if_neg l1, if_neg l2, if_pos l3]
    · simp only [List.take_succ_cons, List.take_zero, decodeUtf8, if_neg l1, if_neg l2, if_pos l3]
  · obtain ⟨l1, l2, l3, l4, -⟩ := @lead4 (p / 262144) (by omega)
    interval_cases n
    · rfl
    · simp only [List.take_succ_cons, List.take_zero, decodeUtf8, if_neg l1, if_neg l2, if_neg l3, if_pos l4]
    · simp only [List.take_succ_cons, List.take_zero, decodeUtf8, if_neg l1, if_neg l2, if_neg l3, if_pos l4]
    · simp only [List.take_succ_cons, List.take_zero, decodeUtf8, if_neg l1, if_neg l2, if_neg l3, if_pos l4]

/-- one character, whole or cut off, and what comes after it -/
theorem decode_take_encodePoint {p : ℕ} (hp : p < 0x110000) (n : ℕ) (bytes : List ℕ) :
    decodeUtf8 ((encodePoint p ++ bytes).take n) =
      if (encodePoint p).length ≤ n then codeUnits p ++ decodeUtf8 (bytes.take (n - (encodePoint p).length)) else [] := by
  split_ifs with h
  · rw [List.take_append, List.take_of_length_le h, decode_encodePoint hp]
  · rw [List.take_append_of_le_length (by omega), decode_cut hp (by omega)]

/-- **Bytes that are cut off** are read as the characters that are whole. -/
theorem decode_take (n : ℕ) (s : JsString) : decodeUtf8 ((encodeUtf8 s).take n) = fits n s := by
  have hu : ∀ u : UInt16, u.toNat < 0x110000 := fun u => u.toNat_lt.trans (by decide)
  induction s using encodeUtf8.induct generalizing n with
  | case1 => rw [encodeUtf8, List.take_nil]; rfl
  | case2 u =>
    have h := decode_take_encodePoint (hu u) n []
    rw [List.append_nil, List.take_nil, codeUnits_unit] at h
    exact h
  | case3 hi lo rest h ih =>
    obtain ⟨hh, hl⟩ := Bool.and_eq_true_iff.1 h
    obtain ⟨hlt, hpair⟩ := codeUnits_pair hh hl
    rw [encodeUtf8, if_pos h, decode_take_encodePoint hlt, hpair, ih, fits, if_pos h]
    rfl
  | case4 hi lo rest h ih =>
    rw [encodeUtf8, if_neg h, decode_take_encodePoint (hu hi), codeUnits_unit, ih, fits, if_neg h]
    rfl

/-- what fits is everything only if there is room for everything -/
theorem length_of_fits {n : ℕ} {s : JsString} (h : fits n s = s) : (encodeUtf8 s).length ≤ n := by
  induction s using encodeUtf8.induct generalizing n with
  | case1 => exact Nat.zero_le n
  | case2 u =>
    rw [fits] at h
    split_ifs at h with hlen
    exact hlen
  | case3 hi lo rest hp ih =>
    rw [fits, if_pos hp] at h
    simp only at h
    split_ifs at h with hlen
    have hrest := ih (List.cons.inj (List.cons.inj h).2).2
    rw [encodeUtf8, if_pos hp, List.length_append]
    omega
  | case4 hi lo rest hp ih =>
    rw [fits, if_neg hp] at h
    simp only at h
    split_ifs at h with hlen
    have hrest := ih (List.cons.inj h).2
    rw [encodeUtf8, if_neg hp, List.length_append]
    omega

theorem numbers_bytesOf (content : JsString) : numbers (bytesOf content) = encodeUtf8 content :=
  numbers_uint8Array (encodeUtf8_lt content)

theorem length_bytesOf (content : JsString) : (bytesOf content).length = (encodeUtf8 content).length := by
  rw [← numbers_bytesOf, numbers, List.length_map]

theorem textOf_take (n : ℕ) (content : JsString) : textOf ((bytesOf content).take n) = fits n content := by
  have htake : numbers ((bytesOf content).take n) = (encodeUtf8 content).take n := by
    rw [← numbers_bytesOf, numbers, numbers, List.map_take]
  unfold textOf
  rw [htake, decode_take]

/-! ## One write -/

theorem read_eq (fs : Files Path) : read fs = ((fs.bytesAt .path).map textOf).getD [] := by
  unfold read Files.bytesAt
  cases fs.link .path with
  | none => rfl
  | some f => exact congrArg textOf Files.read_size

/-- a write that gets through moves into place what was stored; any other leaves what is in place -/
theorem read_write {fs : Files Path} (hs : fs.Separate) (c : Calls) (content : JsString) :
    (write c content fs).Separate ∧
      read (write c content fs) = if c.Return then fits c.stored content else read fs := by
  obtain ⟨hspool, htmp, hother⟩ := Files.spool_spec hs .tmp ((bytesOf content).take c.stored)
  obtain ⟨hrename, hpath, -⟩ := Files.rename_spec hspool (by decide : Path.tmp ≠ Path.path) htmp
  have hkept : read (fs.spool .tmp ((bytesOf content).take c.stored)) = read fs := by
    rw [read_eq, read_eq, hother .path (by decide)]
  by_cases hopen : c.openSync = .returns
  · have hwrite : write c content fs =
        if c.writeSync = .returns ∧ c.closeSync = .returns ∧ c.renameSync = .returns then
          (fs.spool .tmp ((bytesOf content).take c.stored)).rename .tmp .path
        else fs.spool .tmp ((bytesOf content).take c.stored) := by
      unfold write
      rw [if_neg (not_not.2 hopen)]
      rfl
    rw [hwrite]
    by_cases hrest : c.writeSync = .returns ∧ c.closeSync = .returns ∧ c.renameSync = .returns
    · rw [if_pos hrest, if_pos ⟨hopen, hrest⟩, read_eq, hpath]
      exact ⟨hrename, textOf_take c.stored content⟩
    · rw [if_neg hrest, if_neg fun h => hrest h.2]
      exact ⟨hspool, hkept⟩
  · have hwrite : write c content fs = fs := by
      unfold write
      rw [if_pos hopen]
    rw [hwrite, if_neg fun h => hopen h.1]
    exact ⟨hs, rfl⟩

theorem fits_all {n : ℕ} {content : JsString} (h : (bytesOf content).length ≤ n) : fits n content = content := by
  rw [← textOf_take, List.take_of_length_le h, textOf_bytesOf]

/-- **A write that succeeds in full is read back.** -/
theorem read_full {fs : Files Path} (hs : fs.Separate) {c : Calls} {content : JsString} (hc : c.Full content) :
    read (write c content fs) = content := by
  rw [(read_write hs c content).2, if_pos hc.1, fits_all hc.2]

theorem separate_after (history : List (Calls × JsString)) : (after history).Separate := by
  have hrun : ∀ fs : Files Path, fs.Separate → (history.foldl (fun fs w => write w.1 w.2 fs) fs).Separate := by
    induction history with
    | nil => exact fun fs hs => hs
    | cons w history ih => exact fun fs hs => ih _ (read_write hs w.1 w.2).1
  exact hrun _ Files.separate_empty

/-! ## Main results -/

/-- **A write is all or nothing exactly when** it does not get through, or stores everything, or stores of the new content
just what the old content was. -/
theorem all_or_nothing (history : List (Calls × JsString)) (c : Calls) (content : JsString) :
    AllOrNothing (after history) c content ↔
      (c.Return → (bytesOf content).length ≤ c.stored ∨ fits c.stored content = read (after history)) := by
  have hs := separate_after history
  obtain ⟨hs', hread⟩ := read_write hs c content
  have hlater : ∀ d third, Calls.Full d third → read (write d third (write c content (after history))) = third :=
    fun d third hd => read_full hs' hd
  constructor
  · intro h hc
    have heither := h.either
    rw [hread, if_pos hc] at heither
    rcases heither with hold | hnew
    · exact Or.inr hold
    · rw [length_bytesOf]
      exact Or.inl (length_of_fits hnew)
  · intro h
    refine ⟨?_, hlater⟩
    rw [hread]
    split_ifs with hc
    · rcases h hc with hlen | hold
      · exact Or.inr (fits_all hlen)
      · exact Or.inl hold
    · exact Or.inl rfl

/-- every call returns, and this many bytes are stored -/
def storing (n : ℕ) : Calls := ⟨.returns, .returns, n, .returns, .returns⟩

/-- **A truncated content is moved into place**: the disk has room for one byte of three. -/
theorem truncated : ¬ ∀ (history : List (Calls × JsString)) (c : Calls) (content : JsString),
    AllOrNothing (after history) c content := by
  intro h
  have heither := (h [(storing 2, js "ab")] (storing 1) (js "xyz")).either
  revert heither
  decide

/-- **The codec of the store loses nothing**: every string comes back from its encoding and from the file, the encoding
consists of bytes, and it is UTF-8 where there is no unpaired surrogate. -/
theorem codec_exact (s : JsString) :
    decodeUtf8 (encodeUtf8 s) = s ∧ (∀ b ∈ encodeUtf8 s, b < 256) ∧
      (paired s = true → ∃ t, s = utf16 t ∧ encodeUtf8 s = numbers (utf8 t)) ∧
      ∀ (history : List (Calls × JsString)) (c : Calls), c.Full s → read (write c s (after history)) = s :=
  ⟨decode_encode s, encodeUtf8_lt s, encode_paired, fun history _ hc => read_full (separate_after history) hc⟩

end JsonStore

end ShadowsocksOhos
