/-
The UTF-8 codec written out in `JsonStore.ets` (`encodeUtf8`, `decodeUtf8`); `Profile.decodeUtf8` is the same decoder.
Bytes are the numbers of a `number[]`.

- `decode_encode`: decoding undoes encoding, for every sequence of code units. An unpaired surrogate is encoded as if it
were a code point, and comes back.
- `decode_utf8`: the decoder reads the UTF-8 bytes of every text.
- `encode_paired`: a string without unpaired surrogates is a text, and its encoding is UTF-8.
-/
import ShadowsocksOhos.App.JsString

namespace ShadowsocksOhos

/-! ## The codec -/

/-- the bytes of one code point: the branches of the loop in `encodeUtf8` -/
def encodePoint (code : ℕ) : List ℕ :=
  if code < 0x80 then [code]
  else if code < 0x800 then [0xc0 ||| (code >>> 6), 0x80 ||| (code &&& 0x3f)]
  else if code < 0x10000 then [0xe0 ||| (code >>> 12), 0x80 ||| ((code >>> 6) &&& 0x3f), 0x80 ||| (code &&& 0x3f)]
  else
    [0xf0 ||| (code >>> 18), 0x80 ||| ((code >>> 12) &&& 0x3f), 0x80 ||| ((code >>> 6) &&& 0x3f),
      0x80 ||| (code &&& 0x3f)]

def isHigh (u : UInt16) : Bool := 0xd800 ≤ u.toNat && u.toNat ≤ 0xdbff

def isLow (u : UInt16) : Bool := 0xdc00 ≤ u.toNat && u.toNat ≤ 0xdfff

def encodeUtf8 : JsString → List ℕ
  | [] => []
  | [u] => encodePoint u.toNat
  | hi :: lo :: rest =>
    -- combine surrogate pairs
    if isHigh hi && isLow lo then
      encodePoint (0x10000 + ((hi.toNat - 0xd800) <<< 10) + (lo.toNat - 0xdc00)) ++ encodeUtf8 rest
    else encodePoint hi.toNat ++ encodeUtf8 (lo :: rest)

/-- one round of the inner loop of `decodeUtf8` -/
def pushSix (codePoint byte : ℕ) : ℕ := (codePoint <<< 6) ||| (byte &&& 0x3f)

/-- invalid lead bytes are skipped, and a sequence that is cut short ends the string -/
def decodeUtf8 : List ℕ → JsString
  | [] => []
  | lead :: rest =>
    if lead < 0x80 then fromCharCode lead :: decodeUtf8 rest
    else if lead &&& 0xe0 = 0xc0 then
      match rest with
      | b1 :: rest => codeUnits (pushSix (lead &&& 0x1f) b1) ++ decodeUtf8 rest
      | _ => []
    else if lead &&& 0xf0 = 0xe0 then
      match rest with
      | b1 :: b2 :: rest => codeUnits (pushSix (pushSix (lead &&& 0x0f) b1) b2) ++ decodeUtf8 rest
      | _ => []
    else if lead &&& 0xf8 = 0xf0 then
      match rest with
      | b1 :: b2 :: b3 :: rest => codeUnits (pushSix (pushSix (pushSix (lead &&& 0x07) b1) b2) b3) ++ decodeUtf8 rest
      | _ => []
    else decodeUtf8 rest

/-! ## Bits -/

/-- a continuation byte carries six bits -/
theorem continuation {x : ℕ} (h : x < 64) : (0x80 ||| x) &&& 0x3f = x := by
  revert x
  decide

theorem pushSix_continuation (p : ℕ) {x : ℕ} (h : x < 64) : pushSix p (0x80 ||| x) = p * 64 + x := by
  unfold pushSix
  rw [continuation h, ← Nat.shiftLeft_add_eq_or_of_lt h, Nat.shiftLeft_eq]

theorem lead2 {x : ℕ} (h : x < 32) : ¬ (0xc0 ||| x) < 0x80 ∧ (0xc0 ||| x) &&& 0xe0 = 0xc0 ∧ (0xc0 ||| x) &&& 0x1f = x := by
  revert x
  decide

theorem lead3 {x : ℕ} (h : x < 16) :
    ¬ (0xe0 ||| x) < 0x80 ∧ (0xe0 ||| x) &&& 0xe0 ≠ 0xc0 ∧ (0xe0 ||| x) &&& 0xf0 = 0xe0 ∧ (0xe0 ||| x) &&& 0x0f = x := by
  revert x
  decide

theorem lead4 {x : ℕ} (h : x < 8) : ¬ (0xf0 ||| x) < 0x80 ∧ (0xf0 ||| x) &&& 0xe0 ≠ 0xc0 ∧ (0xf0 ||| x) &&& 0xf0 ≠ 0xe0 ∧
    (0xf0 ||| x) &&& 0xf8 = 0xf0 ∧ (0xf0 ||| x) &&& 0x07 = x := by
  revert x
  decide

theorem and_0x3f (x : ℕ) : x &&& 0x3f = x % 64 := Nat.and_two_pow_sub_one_eq_mod x 6

/-- the marks of lead and continuation bytes are added to what they carry -/
theorem marks (x : ℕ) : (x < 64 → 0x80 ||| x = x + 0x80) ∧ (x < 32 → 0xc0 ||| x = x + 0xc0) ∧
    (x < 16 → 0xe0 ||| x = x + 0xe0) ∧ (x < 8 → 0xf0 ||| x = x + 0xf0) := by
  have h : ∀ y < 64, 0x80 ||| y = y + 0x80 ∧ (y < 32 → 0xc0 ||| y = y + 0xc0) ∧ (y < 16 → 0xe0 ||| y = y + 0xe0) ∧
      (y < 8 → 0xf0 ||| y = y + 0xf0) := by decide
  refine ⟨fun hx => (h x hx).1, fun hx => (h x ?_).2.1 hx, fun hx => (h x ?_).2.2.1 hx, fun hx => (h x ?_).2.2.2 hx⟩ <;>
    omega

/-! ## The four kinds of sequences -/

theorem decode_one {lead : ℕ} (h : lead < 0x80) (rest : List ℕ) :
    decodeUtf8 (lead :: rest) = fromCharCode lead :: decodeUtf8 rest := by
  conv_lhs => unfold decodeUtf8
  rw [if_pos h]

theorem decode_two {x y : ℕ} (hx : x < 32) (hy : y < 64) (rest : List ℕ) :
    decodeUtf8 ((0xc0 ||| x) :: (0x80 ||| y) :: rest) = codeUnits (x * 64 + y) ++ decodeUtf8 rest := by
  obtain ⟨l1, l2, l3⟩ := lead2 hx
  conv_lhs => unfold decodeUtf8
  simp only [if_neg l1, if_pos l2, l3, pushSix_continuation _ hy]

theorem decode_three {x y z : ℕ} (hx : x < 16) (hy : y < 64) (hz : z < 64) (rest : List ℕ) :
    decodeUtf8 ((0xe0 ||| x) :: (0x80 ||| y) :: (0x80 ||| z) :: rest) =
      codeUnits ((x * 64 + y) * 64 + z) ++ decodeUtf8 rest := by
  obtain ⟨l1, l2, l3, l4⟩ := lead3 hx
  conv_lhs => unfold decodeUtf8
  simp only [if_neg l1, if_neg l2, if_pos l3, l4, pushSix_continuation _ hy, pushSix_continuation _ hz]

theorem decode_four {x y z w : ℕ} (hx : x < 8) (hy : y < 64) (hz : z < 64) (hw : w < 64) (rest : List ℕ) :
    decodeUtf8 ((0xf0 ||| x) :: (0x80 ||| y) :: (0x80 ||| z) :: (0x80 ||| w) :: rest) =
      codeUnits (((x * 64 + y) * 64 + z) * 64 + w) ++ decodeUtf8 rest := by
  obtain ⟨l1, l2, l3, l4, l5⟩ := lead4 hx
  conv_lhs => unfold decodeUtf8
  simp only [if_neg l1, if_neg l2, if_neg l3, if_pos l4, l5, pushSix_continuation _ hy, pushSix_continuation _ hz,
    pushSix_continuation _ hw]

/-! ## Decoding undoes encoding -/

/-- the decoder takes the bytes of a code point off -/
theorem decode_encodePoint {p : ℕ} (hp : p < 0x110000) (bytes : List ℕ) :
    decodeUtf8 (encodePoint p ++ bytes) = codeUnits p ++ decodeUtf8 bytes := by
  have hs6 : p >>> 6 = p / 64 := Nat.shiftRight_eq_div_pow p 6
  have hs12 : p >>> 12 = p / 4096 := Nat.shiftRight_eq_div_pow p 12
  have hs18 : p >>> 18 = p / 262144 := Nat.shiftRight_eq_div_pow p 18
  unfold encodePoint
  simp only [and_0x3f, hs6, hs12, hs18]
  split_ifs with h1 h2 h3 <;> simp only [List.cons_append, List.nil_append]
  · rw [decode_one h1]
    unfold codeUnits
    rw [if_pos (by omega), List.singleton_append]
  · have hv : p / 64 * 64 + p % 64 = p := by omega
    rw [decode_two (by omega) (by omega), hv]
  · have hv : (p / 4096 * 64 + p / 64 % 64) * 64 + p % 64 = p := by omega
    rw [decode_three (by omega) (by omega) (by omega), hv]
  · have hv : ((p / 262144 * 64 + p / 4096 % 64) * 64 + p / 64 % 64) * 64 + p % 64 = p := by omega
    rw [decode_four (by omega) (by omega) (by omega) (by omega), hv]

theorem codeUnits_unit (u : UInt16) : codeUnits u.toNat = [u] := by
  have := u.toNat_lt
  unfold codeUnits
  rw [if_pos (by omega), fromCharCode_toNat]

/-- the code point of a surrogate pair -/
theorem codeUnits_pair {hi lo : UInt16} (hh : isHigh hi = true) (hl : isLow lo = true) :
    0x10000 + ((hi.toNat - 0xd800) <<< 10) + (lo.toNat - 0xdc00) < 0x110000 ∧
      codeUnits (0x10000 + ((hi.toNat - 0xd800) <<< 10) + (lo.toNat - 0xdc00)) = [hi, lo] := by
  simp only [isHigh, isLow, Bool.and_eq_true, decide_eq_true_eq] at hh hl
  rw [Nat.shiftLeft_eq]
  refine ⟨by omega, ?_⟩
  unfold codeUnits
  rw [if_neg (by omega)]
  have hv : 0x10000 + (hi.toNat - 0xd800) * 2 ^ 10 + (lo.toNat - 0xdc00) - 0x10000 =
      (hi.toNat - 0xd800) * 1024 + (lo.toNat - 0xdc00) := by omega
  have hhi : 0xd800 + ((hi.toNat - 0xd800) * 1024 + (lo.toNat - 0xdc00)) / 2 ^ 10 = hi.toNat := by omega
  have hlo : 0xdc00 + ((hi.toNat - 0xd800) * 1024 + (lo.toNat - 0xdc00)) % 2 ^ 10 = lo.toNat := by omega
  simp only [hv, Nat.shiftRight_eq_div_pow]
  rw [hhi, show (0x3ff : ℕ) = 2 ^ 10 - 1 from rfl, Nat.and_two_pow_sub_one_eq_mod, hlo, fromCharCode_toNat,
    fromCharCode_toNat]

/-- **Decoding undoes encoding.** -/
theorem decode_encode (s : JsString) : decodeUtf8 (encodeUtf8 s) = s := by
  have hu : ∀ u : UInt16, u.toNat < 0x110000 := fun u => u.toNat_lt.trans (by decide)
  induction s using encodeUtf8.induct with
  | case1 => rfl
  | case2 u =>
    have := decode_encodePoint (hu u) []
    rwa [List.append_nil, codeUnits_unit] at this
  | case3 hi lo rest h ih =>
    obtain ⟨hh, hl⟩ := Bool.and_eq_true_iff.1 h
    obtain ⟨hlt, hpair⟩ := codeUnits_pair hh hl
    rw [encodeUtf8, if_pos h, decode_encodePoint hlt, hpair, ih]
    rfl
  | case4 hi lo rest h ih =>
    rw [encodeUtf8, if_neg h, decode_encodePoint (hu hi), codeUnits_unit, ih]
    rfl

/-! ## Bytes -/

theorem encodePoint_lt {p : ℕ} (hp : p < 0x110000) : ∀ b ∈ encodePoint p, b < 256 := by
  have h80 : ∀ x, 0x80 ||| x % 64 < 256 := fun x => by
    rw [(marks _).1 (Nat.mod_lt _ (by decide))]
    omega
  unfold encodePoint
  simp only [and_0x3f, Nat.shiftRight_eq_div_pow]
  intro b hb
  split_ifs at hb with h1 h2 h3 <;> simp only [List.mem_cons, List.not_mem_nil, or_false] at hb
  · omega
  · rcases hb with rfl | rfl
    · rw [(marks _).2.1 (by omega)]
      omega
    · exact h80 _
  · rcases hb with rfl | rfl | rfl
    · rw [(marks _).2.2.1 (by omega)]
      omega
    · exact h80 _
    · exact h80 _
  · rcases hb with rfl | rfl | rfl | rfl
    · rw [(marks _).2.2.2 (by omega)]
      omega
    · exact h80 _
    · exact h80 _
    · exact h80 _

/-- encoding yields bytes -/
theorem encodeUtf8_lt (s : JsString) : ∀ b ∈ encodeUtf8 s, b < 256 := by
  have hu : ∀ u : UInt16, u.toNat < 0x110000 := fun u => u.toNat_lt.trans (by decide)
  induction s using encodeUtf8.induct with
  | case1 => exact nofun
  | case2 u => exact encodePoint_lt (hu u)
  | case3 hi lo rest h ih =>
    obtain ⟨hh, hl⟩ := Bool.and_eq_true_iff.1 h
    rw [encodeUtf8, if_pos h]
    intro b hb
    rcases List.mem_append.1 hb with hb | hb
    · exact encodePoint_lt (codeUnits_pair hh hl).1 b hb
    · exact ih b hb
  | case4 hi lo rest h ih =>
    rw [encodeUtf8, if_neg h]
    intro b hb
    rcases List.mem_append.1 hb with hb | hb
    · exact encodePoint_lt (hu hi) b hb
    · exact ih b hb

/-- bytes as numbers: `Array.from` of a `Uint8Array` -/
def numbers (bytes : List UInt8) : List ℕ := bytes.map UInt8.toNat

/-- numbers as bytes: the constructor of `Uint8Array` -/
def uint8Array (values : List ℕ) : List UInt8 := values.map UInt8.ofNat

theorem numbers_uint8Array {values : List ℕ} (h : ∀ b ∈ values, b < 256) : numbers (uint8Array values) = values := by
  unfold numbers uint8Array
  rw [List.map_map]
  conv_rhs => rw [← List.map_id values]
  apply List.map_congr_left
  intro b hb
  have hb' := h b hb
  simp only [Function.comp_apply, UInt8.toNat_ofNat', id]
  omega

/-! ## Texts -/

/-- the UTF-8 bytes of a text -/
def utf8 (s : List Char) : List UInt8 := s.flatMap String.utf8EncodeChar

theorem numbers_append (a b : List UInt8) : numbers (a ++ b) = numbers a ++ numbers b := List.map_append

theorem numbers_utf8EncodeChar (c : Char) : numbers (String.utf8EncodeChar c) = encodePoint c.toNat := by
  have hc : c.val.toNat = c.toNat := rfl
  have hlt := char_toNat_lt c
  have hofNat : ∀ n, (UInt8.ofNat n).toNat = n % 256 := fun n => UInt8.toNat_ofNat'
  have h80 : ∀ x < 64, 0x80 ||| x = x + 0x80 := fun x => (marks x).1
  unfold String.utf8EncodeChar encodePoint numbers
  simp only [and_0x3f, Nat.shiftRight_eq_div_pow, hc]
  by_cases h1 : c.toNat < 0x80
  · rw [if_pos (by omega), if_pos h1]
    simp only [List.map_cons, List.map_nil, hofNat]
    congr 1
    omega
  rw [if_neg (by omega), if_neg h1]
  by_cases h2 : c.toNat < 0x800
  · rw [if_pos (by omega), if_pos h2]
    have hl : 0xc0 ||| c.toNat / 2 ^ 6 = c.toNat / 2 ^ 6 + 0xc0 := (marks _).2.1 (by omega)
    simp only [List.map_cons, List.map_nil, hofNat, List.cons.injEq, and_true, hl,
      h80 (_ % 64) (Nat.mod_lt _ (by decide))]
    omega
  rw [if_neg (by omega), if_neg h2]
  by_cases h3 : c.toNat < 0x10000
  · rw [if_pos (by omega), if_pos h3]
    have hl : 0xe0 ||| c.toNat / 2 ^ 12 = c.toNat / 2 ^ 12 + 0xe0 := (marks _).2.2.1 (by omega)
    simp only [List.map_cons, List.map_nil, hofNat, List.cons.injEq, and_true, hl,
      h80 (_ % 64) (Nat.mod_lt _ (by decide))]
    omega
  · rw [if_neg (by omega), if_neg h3]
    have hl : 0xf0 ||| c.toNat / 2 ^ 18 = c.toNat / 2 ^ 18 + 0xf0 := (marks _).2.2.2 (by omega)
    simp only [List.map_cons, List.map_nil, hofNat, List.cons.injEq, and_true, hl,
      h80 (_ % 64) (Nat.mod_lt _ (by decide))]
    omega

/-- **The decoder reads the UTF-8 bytes of every text.** -/
theorem decode_utf8 (s : List Char) : decodeUtf8 (numbers (utf8 s)) = utf16 s := by
  induction s with
  | nil => rfl
  | cons c s ih =>
    have hs : utf8 (c :: s) = String.utf8EncodeChar c ++ utf8 s := List.flatMap_cons
    rw [hs, numbers_append, numbers_utf8EncodeChar, decode_encodePoint (char_toNat_lt c), ih, utf16_cons]

/-! ### Strings that are texts -/

/-- there is no unpaired surrogate -/
def paired : JsString → Bool
  | [] => true
  | [u] => !isHigh u && !isLow u
  | hi :: lo :: rest =>
    if isHigh hi && isLow lo then paired rest else !isHigh hi && !isLow hi && paired (lo :: rest)

/-- a unit that is no surrogate is a character -/
theorem unit_char {u : UInt16} (h : (!isHigh u && !isLow u) = true) : ∃ c : Char, c.toNat = u.toNat := by
  have hlt := u.toNat_lt
  simp only [isHigh, isLow, Bool.and_eq_true, Bool.not_eq_true', Bool.and_eq_false_iff, decide_eq_false_iff_not] at h
  have hvalid : u.toNat.isValidChar := by
    unfold Nat.isValidChar
    omega
  exact ⟨Char.ofNatAux _ hvalid, rfl⟩

/-- and so is a surrogate pair -/
theorem pair_char {hi lo : UInt16} (hh : isHigh hi = true) (hl : isLow lo = true) :
    ∃ c : Char, c.toNat = 0x10000 + ((hi.toNat - 0xd800) <<< 10) + (lo.toNat - 0xdc00) := by
  have hlt := (codeUnits_pair hh hl).1
  have hvalid : (0x10000 + ((hi.toNat - 0xd800) <<< 10) + (lo.toNat - 0xdc00)).isValidChar := by
    unfold Nat.isValidChar
    omega
  exact ⟨Char.ofNatAux _ hvalid, rfl⟩

theorem text_cons {c : Char} {bytes : List ℕ} {s : JsString} {t : List Char} (hs : s = utf16 t)
    (hb : bytes = numbers (utf8 t)) :
    codeUnits c.toNat ++ s = utf16 (c :: t) ∧ encodePoint c.toNat ++ bytes = numbers (utf8 (c :: t)) := by
  have hcons : utf8 (c :: t) = String.utf8EncodeChar c ++ utf8 t := List.flatMap_cons
  rw [hs, hb, utf16_cons, hcons, numbers_append, numbers_utf8EncodeChar]
  exact ⟨rfl, rfl⟩

/-- **A string without unpaired surrogates is encoded in UTF-8.** -/
theorem encode_paired {s : JsString} (h : paired s = true) : ∃ t, s = utf16 t ∧ encodeUtf8 s = numbers (utf8 t) := by
  induction s using encodeUtf8.induct with
  | case1 => exact ⟨[], rfl, rfl⟩
  | case2 u =>
    obtain ⟨c, hc⟩ := unit_char h
    obtain ⟨hs, hb⟩ := @text_cons c [] [] [] rfl rfl
    rw [hc, codeUnits_unit, List.append_nil] at hs
    rw [hc, List.append_nil] at hb
    exact ⟨[c], hs, hb⟩
  | case3 hi lo rest hp ih =>
    obtain ⟨hh, hl⟩ := Bool.and_eq_true_iff.1 hp
    obtain ⟨c, hc⟩ := pair_char hh hl
    rw [paired, if_pos hp] at h
    obtain ⟨t, hs, hb⟩ := ih h
    obtain ⟨hs', hb'⟩ := text_cons (c := c) hs hb
    rw [hc, (codeUnits_pair hh hl).2] at hs'
    rw [hc] at hb'
    refine ⟨c :: t, hs', ?_⟩
    rw [encodeUtf8, if_pos hp]
    exact hb'
  | case4 hi lo rest hp ih =>
    rw [paired, if_neg hp] at h
    obtain ⟨hu, hrest⟩ := Bool.and_eq_true_iff.1 h
    obtain ⟨c, hc⟩ := unit_char hu
    obtain ⟨t, hs, hb⟩ := ih hrest
    obtain ⟨hs', hb'⟩ := text_cons (c := c) hs hb
    rw [hc, codeUnits_unit] at hs'
    rw [hc] at hb'
    refine ⟨c :: t, hs', ?_⟩
    rw [encodeUtf8, if_neg hp]
    exact hb'

end ShadowsocksOhos
