/-
`Profile.decodeBase64` reads every base64 text. The accumulator is never masked, so it overflows after a few characters;
the byte that is taken lies in its low twelve bits, which the overflow does not reach. It also reads texts that go on after
the padding, and ignores what stands there.

- `decodeBase64Loop_eq`: the loop is `Base64.pack` on the digits in front of the padding, whatever stands in the upper bits.
- `decodes_any_form`: digits of both alphabets, with or without padding, and white space anywhere.
- `exact_iff`: it reads just what is documented, and every character counts, unless there is text after the padding or one
digit too many.
- `ignored`: a second padded line.
-/
import ShadowsocksOhos.App.Profile
import ShadowsocksOhos.Core.Base64

namespace ShadowsocksOhos

/-! ## The accumulator -/

/-- six bits are pushed: what is pending grows by a digit, at any width that fits -/
theorem push_mod {buffer : BitVec 32} {v bits : ℕ} (hv : v < 64) (hb : bits + 6 ≤ 32) :
    ((buffer <<< 6) ||| BitVec.ofNat 32 v).toNat % 2 ^ (bits + 6) = buffer.toNat % 2 ^ bits * 64 + v := by
  have hor : ((buffer <<< 6) ||| BitVec.ofNat 32 v).toNat = buffer.toNat * 64 % 2 ^ 32 + v := by
    have hmul : buffer.toNat * 64 % 2 ^ 32 = (buffer.toNat % 2 ^ 26) <<< 6 := by
      rw [Nat.shiftLeft_eq]
      omega
    have hv32 : v % 2 ^ 32 = v := Nat.mod_eq_of_lt (hv.trans (by decide))
    rw [BitVec.toNat_or, BitVec.toNat_shiftLeft, BitVec.toNat_ofNat, hv32, Nat.shiftLeft_eq, hmul,
      Nat.shiftLeft_add_eq_or_of_lt hv]
  have hdvd : 2 ^ (bits + 6) ∣ 2 ^ 32 := pow_dvd_pow 2 hb
  calc ((buffer <<< 6) ||| BitVec.ofNat 32 v).toNat % 2 ^ (bits + 6)
      = (buffer.toNat * 64 + v) % 2 ^ (bits + 6) := by
        rw [hor, Nat.add_mod, Nat.mod_mod_of_dvd _ hdvd, ← Nat.add_mod]
    _ = (buffer.toNat * 64 + v) % 64 + 64 * ((buffer.toNat * 64 + v) / 64 % 2 ^ bits) := by
        rw [pow_add, Nat.mul_comm (2 ^ bits)]
        exact Nat.mod_mul
    _ = buffer.toNat % 2 ^ bits * 64 + v := by
        have hdiv : (buffer.toNat * 64 + v) / 64 = buffer.toNat := by omega
        rw [hdiv]
        omega

/-- a byte is taken: the sign does not matter -/
theorem take_byte (buffer : BitVec 32) {k : ℕ} (hk : k ≤ 24) :
    ((buffer.sshiftRight k) &&& 0xff#32).toNat = buffer.toNat / 2 ^ k % 256 := by
  have hshift : (buffer.sshiftRight k) &&& 0xff#32 = (buffer >>> k) &&& 0xff#32 := by
    apply BitVec.eq_of_getLsbD_eq
    intro i hi
    rw [BitVec.getLsbD_and, BitVec.getLsbD_and, BitVec.getLsbD_sshiftRight, BitVec.getLsbD_ushiftRight]
    by_cases h8 : i < 8
    · have hlt : k + i < 32 := by omega
      have hi' : ¬ 32 ≤ i := by omega
      rw [if_pos hlt, decide_eq_false hi', Bool.not_false, Bool.true_and]
    · have hmask : (0xff#32).getLsbD i = false := by
        rw [BitVec.getLsbD_ofNat, show (0xff : ℕ) = 2 ^ 8 - 1 from rfl, Nat.testBit_two_pow_sub_one,
          decide_eq_false h8, Bool.and_false]
      rw [hmask, Bool.and_false, Bool.and_false]
  rw [hshift, BitVec.toNat_and, BitVec.toNat_ushiftRight, Nat.shiftRight_eq_div_pow]
  exact Nat.and_two_pow_sub_one_eq_mod _ 8

/-! ## The characters of a base64 text -/

/-- `normalize` on one unit -/
def normalizeUnit (u : UInt16) : UInt16 :=
  let u := if u = unit '-' then unit '+' else u
  if u = unit '_' then unit '/' else u

/-- what the loop skips -/
def skipped (u : UInt16) : Bool := u = unit ' ' || u = unit '\t' || u = unit '\r' || u = unit '\n'

/-- a digit as the loop sees it, after `normalize` -/
structure IsDigitOf (v : ℕ) (c : UInt16) : Prop where
  no_pad : c ≠ unit '='
  no_space : ¬ (c = unit ' ' ∨ c = unit '\t' ∨ c = unit '\r' ∨ c = unit '\n')
  index : indexOf c ALPHABET = some v

/-- a digit of one of the two alphabets -/
def DigitOf (v : ℕ) (u : UInt16) : Prop := u = unit (Base64.standard v) ∨ u = unit (Base64.urlSafe v)

instance (v : ℕ) (u : UInt16) : Decidable (DigitOf v u) := inferInstanceAs (Decidable (_ ∨ _))

/-- is it in one of the two alphabets? -/
def isAlphabet (u : UInt16) : Bool := (indexOf (normalizeUnit u) ALPHABET).isSome

/-- the six bits of a character -/
def sextetOf (u : UInt16) : ℕ := (indexOf (normalizeUnit u) ALPHABET).getD 0

theorem normalize_eq_map (text : JsString) : normalize text = text.map normalizeUnit := List.map_map

theorem skipped_iff {u : UInt16} : skipped u = true ↔ u = unit ' ' ∨ u = unit '\t' ∨ u = unit '\r' ∨ u = unit '\n' := by
  simp [skipped, or_assoc]

/-- `normalize` changes nothing but the two digits -/
theorem normalizeUnit_eq {c : UInt16} (hplus : c ≠ unit '+') (hslash : c ≠ unit '/') (hminus : c ≠ unit '-')
    (hline : c ≠ unit '_') (u : UInt16) : normalizeUnit u = c ↔ u = c := by
  unfold normalizeUnit
  simp only
  split_ifs with h1 h2 h2
  · exact absurd h2 (by decide)
  · exact iff_of_false hplus.symm fun h => hminus (h.symm.trans h1)
  · exact iff_of_false hslash.symm fun h => hline (h.symm.trans h2)
  · rfl

theorem skipped_normalizeUnit (u : UInt16) : skipped (normalizeUnit u) = skipped u := by
  have hkeep := fun c h1 h2 h3 h4 => @normalizeUnit_eq c h1 h2 h3 h4 u
  rw [Bool.eq_iff_iff, skipped_iff, skipped_iff, hkeep (unit ' ') (by decide) (by decide) (by decide) (by decide),
    hkeep (unit '\t') (by decide) (by decide) (by decide) (by decide),
    hkeep (unit '\r') (by decide) (by decide) (by decide) (by decide),
    hkeep (unit '\n') (by decide) (by decide) (by decide) (by decide)]

theorem isDigitOf {v : ℕ} {u : UInt16} (hv : v < 64) (h : DigitOf v u) : IsDigitOf v (normalizeUnit u) := by
  have hdec : ∀ digit ∈ [Base64.standard, Base64.urlSafe], ∀ w ∈ List.range 64,
      normalizeUnit (unit (digit w)) ≠ unit '=' ∧
      ¬ (normalizeUnit (unit (digit w)) = unit ' ' ∨ normalizeUnit (unit (digit w)) = unit '\t' ∨
        normalizeUnit (unit (digit w)) = unit '\r' ∨ normalizeUnit (unit (digit w)) = unit '\n') ∧
      indexOf (normalizeUnit (unit (digit w))) ALPHABET = some w := by decide +kernel
  rcases h with rfl | rfl
  · obtain ⟨h1, h2, h3⟩ := hdec Base64.standard List.mem_cons_self v (List.mem_range.2 hv)
    exact ⟨h1, h2, h3⟩
  · obtain ⟨h1, h2, h3⟩ := hdec Base64.urlSafe (List.mem_cons_of_mem _ List.mem_cons_self) v (List.mem_range.2 hv)
    exact ⟨h1, h2, h3⟩

theorem sextetOf_digit {v : ℕ} {u : UInt16} (hv : v < 64) (h : DigitOf v u) :
    isAlphabet u = true ∧ sextetOf u = v ∧ skipped u = false ∧ u ≠ unit '=' := by
  obtain ⟨hpad, hspace, hindex⟩ := isDigitOf hv h
  refine ⟨by rw [isAlphabet, hindex]; rfl, by rw [sextetOf, hindex]; rfl, ?_, ?_⟩
  · rw [← skipped_normalizeUnit, Bool.eq_false_iff]
    exact fun hc => hspace (skipped_iff.1 hc)
  · exact fun hc => hpad ((normalizeUnit_eq (by decide) (by decide) (by decide) (by decide) u).2 hc)

theorem digitOf_sextetOf {u : UInt16} (h : isAlphabet u = true) : sextetOf u < 64 ∧ DigitOf (sextetOf u) u := by
  have hdec : ∀ c ∈ ALPHABET ++ [unit '-', unit '_'], sextetOf c < 64 ∧ DigitOf (sextetOf c) c :=
    forall_mem_of_all (by decide +kernel)
  have hmem : normalizeUnit u ∈ ALPHABET := by
    by_contra hc
    rw [isAlphabet, indexOf_none hc] at h
    cases h
  apply hdec
  rw [List.mem_append]
  by_cases hminus : u = unit '-'
  · right
    simp [hminus]
  by_cases hline : u = unit '_'
  · right
    simp [hline]
  · left
    rwa [normalizeUnit, if_neg hminus, if_neg hline] at hmem

theorem isAlphabet_kept {u : UInt16} (h : isAlphabet u = true) : skipped u = false ∧ u ≠ unit '=' := by
  obtain ⟨hlt, hdigit⟩ := digitOf_sextetOf h
  exact (sextetOf_digit hlt hdigit).2.2

/-! ## The loop -/

/-- white space apart, what stands in front of the first `=` -/
def digitsOf (text : JsString) : JsString := (text.filter fun u => !skipped u).takeWhile fun u => u ≠ unit '='

/-- white space apart, what stands from the first `=` on -/
def paddingOf (text : JsString) : JsString := (text.filter fun u => !skipped u).dropWhile fun u => u ≠ unit '='

/-- **The loop** reads the digits in front of the padding. -/
theorem decodeBase64Loop_eq (text : JsString) (buffer : BitVec 32) {bits : ℕ} (hb : bits < 8) :
    decodeBase64Loop buffer bits (normalize text) =
      if (digitsOf text).all isAlphabet = true then
        some (Base64.pack (buffer.toNat % 2 ^ bits) bits ((digitsOf text).map sextetOf))
      else none := by
  rw [normalize_eq_map]
  induction text generalizing buffer bits with
  | nil => rfl
  | cons u text ih =>
    have hpad : normalizeUnit u = unit '=' ↔ u = unit '=' :=
      normalizeUnit_eq (by decide) (by decide) (by decide) (by decide) u
    have hspace := skipped_iff (u := normalizeUnit u)
    rw [skipped_normalizeUnit] at hspace
    rw [List.map_cons, decodeBase64Loop]
    unfold digitsOf at ih ⊢
    by_cases hp : u = unit '='
    · -- padding
      have hkeep : (!skipped u) = true := by
        rw [hp]
        decide
      rw [if_pos (hpad.2 hp), List.filter_cons_of_pos (by rw [hkeep]), List.takeWhile_cons_of_neg (by simpa using hp)]
      rfl
    by_cases hs : skipped u = true
    · rw [if_neg (mt hpad.1 hp), if_pos (hspace.1 hs), List.filter_cons_of_neg (by simp [hs])]
      exact ih buffer hb
    rw [if_neg (mt hpad.1 hp), if_neg (mt hspace.2 hs), List.filter_cons_of_pos (by simp [hs]),
      List.takeWhile_cons_of_pos (by simpa using hp), List.all_cons, List.map_cons]
    cases hindex : indexOf (normalizeUnit u) ALPHABET with
    | none =>
      have halpha : isAlphabet u = false := by rw [isAlphabet, hindex]; rfl
      rw [halpha, Bool.false_and, if_neg (by decide)]
    | some v =>
      have halpha : isAlphabet u = true := by rw [isAlphabet, hindex]; rfl
      have hv : sextetOf u = v := by rw [sextetOf, hindex]; rfl
      have hlt : v < 64 := hv ▸ (digitOf_sextetOf halpha).1
      have hpush := @push_mod buffer v bits hlt (by omega)
      rw [halpha, Bool.true_and, hv]
      unfold Base64.pack
      by_cases h8 : 8 ≤ bits + 6
      · have hbits : bits - 2 + 8 = bits + 6 := by omega
        have hshift : bits + 6 - 8 = bits - 2 := by omega
        have hbyte : ((buffer <<< 6) ||| BitVec.ofNat 32 v).toNat / 2 ^ (bits - 2) % 256 =
            (buffer.toNat % 2 ^ bits * 64 + v) / 2 ^ (bits - 2) := by
          rw [← hpush, ← hbits, pow_add, ← Nat.mod_mul_right_div_self]
          rfl
        have hpending : ((buffer <<< 6) ||| BitVec.ofNat 32 v).toNat % 2 ^ (bits - 2) =
            (buffer.toNat % 2 ^ bits * 64 + v) % 2 ^ (bits - 2) := by
          rw [← hpush, Nat.mod_mod_of_dvd _ (pow_dvd_pow 2 (by omega))]
        simp only [if_pos h8, hshift]
        rw [ih _ (by omega), take_byte _ (by omega), hbyte, hpending, apply_ite (Option.map _)]
        rfl
      · simp only [if_neg h8]
        rw [ih _ (by omega), hpush]

/-- the bytes that the loop builds -/
theorem decodeBase64Loop_zero (text : JsString) : decodeBase64Loop 0 0 (normalize text) =
    if (digitsOf text).all isAlphabet = true then some (Base64.pack 0 0 ((digitsOf text).map sextetOf)) else none :=
  decodeBase64Loop_eq text 0 (by decide)

/-- **White space anywhere does not matter.** -/
theorem decodeBase64_filter (text : JsString) : decodeBase64 (text.filter fun u => !skipped u) = decodeBase64 text := by
  have hdigits : digitsOf (text.filter fun u => !skipped u) = digitsOf text := by
    unfold digitsOf
    rw [List.filter_filter]
    simp only [Bool.and_self]
  unfold decodeBase64
  rw [decodeBase64Loop_zero, decodeBase64Loop_zero, hdigits]

/-! ## The forms of a base64 text -/

/-- a base64 text of these bytes: digits of either alphabet, with the padding or without, and white space anywhere -/
def IsBase64Of (bytes : List UInt8) (text : JsString) : Prop := ∃ digits n,
  (text.filter fun u => !skipped u) = digits ++ List.replicate n (unit '=') ∧
    List.Forall₂ DigitOf (Base64.sextets bytes) digits ∧ (n = 0 ∨ n = Base64.padding bytes)

/-- the digits of a text, and its padding -/
theorem digitsOf_append {text digits pad : JsString} (h : (text.filter fun u => !skipped u) = digits ++ pad)
    (hd : ∀ u ∈ digits, u ≠ unit '=') (hp : ∀ u ∈ pad, u = unit '=') : digitsOf text = digits ∧ paddingOf text = pad := by
  unfold digitsOf paddingOf
  rw [h, List.takeWhile_append_of_pos (by simpa using hd), List.dropWhile_append_of_pos (by simpa using hd)]
  cases pad with
  | nil => exact ⟨List.append_nil _, rfl⟩
  | cons u pad =>
    have hu : u = unit '=' := hp u List.mem_cons_self
    rw [List.takeWhile_cons_of_neg (by simpa using hu), List.dropWhile_cons_of_neg (by simpa using hu)]
    exact ⟨List.append_nil _, rfl⟩

/-- what the digits of a byte list are to the loop -/
theorem map_sextetOf {values : List ℕ} {digits : JsString} (hv : ∀ v ∈ values, v < 64)
    (hd : List.Forall₂ DigitOf values digits) :
    digits.map sextetOf = values ∧ ∀ u ∈ digits, isAlphabet u = true ∧ u ≠ unit '=' := by
  induction hd with
  | nil => exact ⟨rfl, nofun⟩
  | @cons v u values digits hvu _ ih =>
    obtain ⟨hmap, hall⟩ := ih fun w hw => hv w (List.mem_cons_of_mem _ hw)
    obtain ⟨halpha, hsextet, -, hpad⟩ := sextetOf_digit (hv v List.mem_cons_self) hvu
    refine ⟨by rw [List.map_cons, hmap, hsextet], ?_⟩
    intro w hw
    rcases List.mem_cons.1 hw with rfl | hw
    · exact ⟨halpha, hpad⟩
    · exact hall w hw

/-- **Every base64 text is decoded**: the loop builds exactly its bytes. -/
theorem decodes_any_form {bytes : List UInt8} {text : JsString} (h : IsBase64Of bytes text) :
    decodeBase64Loop 0 0 (normalize text) = some (numbers bytes) ∧ decodeBase64 text = some (decodeUtf8 (numbers bytes)) := by
  obtain ⟨digits, n, htext, hdigits, -⟩ := h
  obtain ⟨hmap, hall⟩ := map_sextetOf (Base64.sextets_lt bytes) hdigits
  obtain ⟨hfront, -⟩ := digitsOf_append htext (fun u hu => (hall u hu).2) fun u hu => List.eq_of_mem_replicate hu
  have hloop : decodeBase64Loop 0 0 (normalize text) = some (numbers bytes) := by
    rw [decodeBase64Loop_zero, hfront, if_pos (List.all_eq_true.2 fun u hu => (hall u hu).1), hmap, Base64.pack_sextets]
    rfl
  refine ⟨hloop, ?_⟩
  unfold decodeBase64
  rw [hloop]
  rfl

/-- four characters to a line, both alphabets, and white space in the padding -/
def mixedText : JsString := js "-_+/\r\n\tYQ=\n="

theorem decodes_any_form_mixed : decodeBase64Loop 0 0 (normalize mixedText) = some [0xfb, 0xff, 0xbf, 0x61] ∧
    decodeBase64 mixedText = some (decodeUtf8 [0xfb, 0xff, 0xbf, 0x61]) :=
  @decodes_any_form [0xfb, 0xff, 0xbf, 0x61] mixedText
    ⟨js "-_+/YQ", 2, by decide, by decide, Or.inr (by decide)⟩

/-! ### One alphabet, with or without padding -/

structure Base64Form where
  urlSafe : Bool
  padded : Bool
deriving DecidableEq, Repr

def Base64Form.digit (f : Base64Form) (v : ℕ) : UInt16 :=
  unit (if f.urlSafe then Base64.urlSafe v else Base64.standard v)

def Base64Form.encode (f : Base64Form) (bytes : List UInt8) : JsString :=
  Base64.encode f.digit (if f.padded then some (unit '=') else none) bytes

theorem digitOf_digit (f : Base64Form) (v : ℕ) : DigitOf v (f.digit v) := by
  unfold DigitOf Base64Form.digit
  cases f.urlSafe with
  | false => exact Or.inl rfl
  | true => exact Or.inr rfl

/-- **Base64 texts are decoded**, in either alphabet, padded or not. -/
theorem decodeBase64_encode (f : Base64Form) (s : List Char) : decodeBase64 (f.encode (utf8 s)) = some (utf16 s) := by
  have hpad : ∃ n, f.encode (utf8 s) = (Base64.sextets (utf8 s)).map f.digit ++ List.replicate n (unit '=') ∧
      (n = 0 ∨ n = Base64.padding (utf8 s)) := by
    unfold Base64Form.encode Base64.encode
    cases f.padded with
    | false => exact ⟨0, rfl, Or.inl rfl⟩
    | true => exact ⟨_, rfl, Or.inr rfl⟩
  have hkeep : ∀ u ∈ f.encode (utf8 s), (!skipped u) = true := by
    intro u hu
    rcases Base64.mem_encode hu with ⟨v, hv, rfl⟩ | hu
    · rw [(sextetOf_digit hv (digitOf_digit f v)).2.2.1]
      rfl
    · cases hf : f.padded with
      | false => simp [hf] at hu
      | true =>
        have hu' : u = unit '=' := by simpa [hf, eq_comm] using hu
        rw [hu']
        decide
  obtain ⟨n, htext, hn⟩ := hpad
  have hdigits : ∀ values : List ℕ, List.Forall₂ DigitOf values (values.map f.digit) := by
    intro values
    rw [List.forall₂_map_right_iff, List.forall₂_same]
    exact fun v _ => digitOf_digit f v
  have hdecode := (decodes_any_form ⟨_, n, (List.filter_eq_self.2 hkeep).trans htext, hdigits _, hn⟩).2
  rw [hdecode, decode_utf8]

/-! ## What is read -/

/-- the input of the docstring: white space apart, characters of the alphabets, and then padding -/
def Documented (text : JsString) : Prop := ∃ digits pad,
  (text.filter fun u => !skipped u) = digits ++ pad ∧ (∀ u ∈ digits, ∃ v < 64, DigitOf v u) ∧ ∀ u ∈ pad, u = unit '='

/-- the character counts: there is a digit that gives other bytes in its place -/
def Counts (pre : JsString) (u : UInt16) (post : JsString) : Prop := ∃ v < 64, ∃ w, DigitOf v w ∧
  decodeBase64Loop 0 0 (normalize (pre ++ w :: post)) ≠ decodeBase64Loop 0 0 (normalize (pre ++ u :: post))

/-- the documented input is read, any other one throws, and nothing that is read is dropped -/
structure Exact (text : JsString) : Prop where
  accepts : (decodeBase64 text).isSome ↔ Documented text
  counts : (decodeBase64 text).isSome → ∀ pre u post, text = pre ++ u :: post → skipped u = false → u ≠ unit '=' →
    Counts pre u post

theorem decodeBase64_isSome (text : JsString) : (decodeBase64 text).isSome ↔ (digitsOf text).all isAlphabet = true := by
  unfold decodeBase64
  rw [decodeBase64Loop_zero]
  split_ifs with h
  · exact iff_of_true rfl h
  · exact iff_of_false nofun h

theorem filter_parts (text : JsString) : (text.filter fun u => !skipped u) = digitsOf text ++ paddingOf text :=
  List.takeWhile_append_dropWhile.symm

theorem documented_iff (text : JsString) :
    Documented text ↔ (digitsOf text).all isAlphabet = true ∧ ∀ u ∈ paddingOf text, u = unit '=' := by
  constructor
  · rintro ⟨digits, pad, htext, hdigits, hpad⟩
    have hall : ∀ u ∈ digits, isAlphabet u = true ∧ u ≠ unit '=' := by
      intro u hu
      obtain ⟨v, hv, hvu⟩ := hdigits u hu
      obtain ⟨halpha, -, -, hne⟩ := sextetOf_digit hv hvu
      exact ⟨halpha, hne⟩
    obtain ⟨hfront, hback⟩ := digitsOf_append htext (fun u hu => (hall u hu).2) hpad
    rw [hfront, hback, List.all_eq_true]
    exact ⟨fun u hu => (hall u hu).1, hpad⟩
  · rintro ⟨hall, hpad⟩
    refine ⟨_, _, filter_parts text, ?_, hpad⟩
    intro u hu
    exact ⟨_, digitOf_sextetOf (List.all_eq_true.1 hall u hu)⟩

theorem ne_pad_of_mem_digitsOf {text : JsString} {u : UInt16} (h : u ∈ digitsOf text) : u ≠ unit '=' := by
  simpa using List.mem_takeWhile_imp h

theorem filter_around {w : UInt16} (hw : skipped w = false) (pre post : JsString) :
    ((pre ++ w :: post).filter fun u => !skipped u) =
      (pre.filter fun u => !skipped u) ++ w :: post.filter fun u => !skipped u := by
  rw [List.filter_append, List.filter_cons_of_pos (by simp [hw])]

/-- a digit between these digits of a text -/
theorem digitsOf_around {pre post front rest pad : JsString} {w : UInt16} (hpre : (pre.filter fun u => !skipped u) = front)
    (hpost : (post.filter fun u => !skipped u) = rest ++ pad) (hfront : ∀ v ∈ front, v ≠ unit '=')
    (hrest : ∀ v ∈ rest, v ≠ unit '=') (hpad : ∀ v ∈ pad, v = unit '=') (hw : isAlphabet w = true) :
    digitsOf (pre ++ w :: post) = front ++ w :: rest := by
  obtain ⟨hskip, hne⟩ := isAlphabet_kept hw
  have htext := filter_around hskip pre post
  rw [hpre, hpost, ← List.cons_append, ← List.append_assoc] at htext
  refine (digitsOf_append htext ?_ hpad).1
  rw [List.forall_mem_append, List.forall_mem_cons]
  exact ⟨hfront, hne, hrest⟩

/-- a character in front of the padding stands among the digits, and so does a digit that is put in its place -/
theorem digits_around {pre post : JsString} {u : UInt16} (hs : skipped u = false) (hu : u ≠ unit '=')
    (hpad : ∀ w ∈ paddingOf (pre ++ u :: post), w = unit '=') :
    ∃ front rest, digitsOf (pre ++ u :: post) = front ++ u :: rest ∧
      ∀ w, isAlphabet w = true → digitsOf (pre ++ w :: post) = front ++ w :: rest := by
  have hparts := filter_parts (pre ++ u :: post)
  have hne := fun v => @ne_pad_of_mem_digitsOf (pre ++ u :: post) v
  rw [filter_around hs] at hparts
  generalize digitsOf (pre ++ u :: post) = D at hparts hne
  generalize paddingOf (pre ++ u :: post) = P at hpad hparts
  have huP : u ∉ P := fun hc => hu (hpad u hc)
  rcases List.append_eq_append_iff.1 hparts with ⟨c, hDc, hc⟩ | ⟨c, hprec, hc⟩
  · cases c with
    | nil => exact absurd (hc ▸ List.mem_cons_self : u ∈ [] ++ P) huP
    | cons v rest =>
      obtain ⟨rfl, hpost⟩ := List.cons.inj hc
      rw [hDc, List.forall_mem_append, List.forall_mem_cons] at hne
      exact ⟨_, rest, hDc, fun w hw => digitsOf_around rfl hpost hne.1 hne.2.2 hpad hw⟩
  · exact absurd (hc ▸ List.mem_append_right c List.mem_cons_self) huP

/-- the last digit stands at a place of the text, and so does a digit that is put in its place -/
theorem last_around {text front : JsString} {u : UInt16} (hfront : digitsOf text = front ++ [u])
    (hpad : ∀ w ∈ paddingOf text, w = unit '=') :
    ∃ pre post, text = pre ++ u :: post ∧ ∀ w, isAlphabet w = true → digitsOf (pre ++ w :: post) = front ++ [w] := by
  have hne : ∀ v ∈ front ++ [u], v ≠ unit '=' := fun v hv => ne_pad_of_mem_digitsOf (hfront ▸ hv)
  have hparts := filter_parts text
  rw [hfront, List.append_assoc, List.singleton_append] at hparts
  obtain ⟨t1, t2, rfl, hpre, ht2⟩ := List.filter_eq_append_iff.1 hparts
  obtain ⟨t3, post, rfl, hskip, -, hpost⟩ := List.filter_eq_cons_iff.1 ht2
  have hpre' : ((t1 ++ t3).filter fun u => !skipped u) = front := by
    rw [List.filter_append, hpre, List.filter_eq_nil_iff.2 hskip, List.append_nil]
  refine ⟨t1 ++ t3, post, (List.append_assoc _ _ _).symm, fun w hw => ?_⟩
  exact digitsOf_around hpre' hpost (List.forall_mem_append.1 hne).1 (fun v hv => absurd hv List.not_mem_nil) hpad hw

/-- the other digit of the same five low bits -/
def flipFirst (v : ℕ) : ℕ := if v < 32 then v + 32 else v - 32

/-- a digit counts if its first bit is in one of the bytes -/
theorem pack_flipFirst {pre post : List ℕ} {v : ℕ} (hvs : ∀ w ∈ pre ++ v :: post, w < 64)
    (h : post ≠ [] ∨ (pre.length + 1) % 4 ≠ 1) :
    Base64.pack 0 0 (pre ++ flipFirst v :: post) ≠ Base64.pack 0 0 (pre ++ v :: post) := by
  rw [List.forall_mem_append, List.forall_mem_cons] at hvs
  obtain ⟨hpre, hv, hpost⟩ := hvs
  have hother : ∀ x < 64, ∀ w ∈ pre ++ x :: post, w < 64 := by
    intro x hx
    rw [List.forall_mem_append, List.forall_mem_cons]
    exact ⟨hpre, hx, hpost⟩
  unfold flipFirst
  split_ifs with hlt
  · exact (Base64.pack_ne (hother (v + 32) (by omega)) h).symm
  · obtain ⟨w, rfl⟩ := Nat.exists_eq_add_of_le' (not_lt.1 hlt)
    rw [Nat.add_sub_cancel]
    exact Base64.pack_ne (hother (w + 32) hv) h

/-- the bytes of a text, with a digit at this place -/
theorem loop_around {pre post front rest : JsString}
    (haround : ∀ w, isAlphabet w = true → digitsOf (pre ++ w :: post) = front ++ w :: rest)
    (hfront : ∀ v ∈ front, isAlphabet v = true) (hrest : ∀ v ∈ rest, isAlphabet v = true) {w : UInt16}
    (hw : isAlphabet w = true) :
    decodeBase64Loop 0 0 (normalize (pre ++ w :: post)) =
      some (Base64.pack 0 0 (front.map sextetOf ++ sextetOf w :: rest.map sextetOf)) := by
  have hall : ∀ v ∈ front ++ w :: rest, isAlphabet v = true := by
    rw [List.forall_mem_append, List.forall_mem_cons]
    exact ⟨hfront, hw, hrest⟩
  rw [decodeBase64Loop_zero, haround w hw, if_pos (List.all_eq_true.2 hall), List.map_append, List.map_cons]

/-- a digit counts, unless it is the last one and there is one too many -/
theorem counts_around {pre post front rest : JsString} {u : UInt16}
    (haround : ∀ w, isAlphabet w = true → digitsOf (pre ++ w :: post) = front ++ w :: rest)
    (hall : ∀ v ∈ front ++ u :: rest, isAlphabet v = true) :
    Counts pre u post ↔ rest ≠ [] ∨ (front.length + 1) % 4 ≠ 1 := by
  have hsextets : ∀ w ∈ (front ++ u :: rest).map sextetOf, w < 64 := by
    intro w hw
    obtain ⟨v, hv, rfl⟩ := List.mem_map.1 hw
    exact (digitOf_sextetOf (hall v hv)).1
  rw [List.map_append, List.map_cons] at hsextets
  rw [List.forall_mem_append, List.forall_mem_cons] at hall
  obtain ⟨hfront, hu, hrest⟩ := hall
  have hloop : ∀ w, isAlphabet w = true → decodeBase64Loop 0 0 (normalize (pre ++ w :: post)) =
      some (Base64.pack 0 0 (front.map sextetOf ++ sextetOf w :: rest.map sextetOf)) :=
    fun w hw => loop_around haround hfront hrest hw
  constructor
  · rintro ⟨v, hv, w, hvw, hdiff⟩
    by_contra hc
    obtain ⟨hnil, hlen⟩ := not_or.1 hc
    obtain rfl := not_not.1 hnil
    -- its six bits are in no byte
    have hlast : ∀ x, Base64.pack 0 0 (front.map sextetOf ++ [x]) = Base64.pack 0 0 (front.map sextetOf) := fun x =>
      Base64.pack_last 0 (by decide) _ x (by rw [List.length_map]; omega)
    rw [hloop w (sextetOf_digit hv hvw).1, hloop u hu, List.map_nil, hlast, hlast] at hdiff
    exact hdiff rfl
  · intro hlen
    have hflip : flipFirst (sextetOf u) < 64 := by
      have hlt := (digitOf_sextetOf hu).1
      unfold flipFirst
      split_ifs <;> omega
    have hdigit : DigitOf (flipFirst (sextetOf u)) (unit (Base64.standard (flipFirst (sextetOf u)))) := Or.inl rfl
    obtain ⟨halpha, hsextet, -⟩ := sextetOf_digit hflip hdigit
    refine ⟨_, hflip, _, hdigit, ?_⟩
    rw [hloop _ halpha, hloop u hu, hsextet]
    intro hc
    refine pack_flipFirst hsextets ?_ (Option.some.inj hc)
    rwa [List.length_map, Ne, List.map_eq_nil_iff]

/-- every character that is read counts, unless there is one digit too many -/
theorem counts_iff {text : JsString} (hall : ∀ u ∈ digitsOf text, isAlphabet u = true)
    (hpad : ∀ u ∈ paddingOf text, u = unit '=') :
    (∀ pre u post, text = pre ++ u :: post → skipped u = false → u ≠ unit '=' → Counts pre u post) ↔
      (digitsOf text).length % 4 ≠ 1 := by
  constructor
  · intro h hlen
    have hne : digitsOf text ≠ [] := by
      intro hc
      rw [hc] at hlen
      cases hlen
    obtain ⟨front, u, hfront⟩ : ∃ front u, digitsOf text = front ++ [u] := ⟨_, _, (List.dropLast_append_getLast hne).symm⟩
    obtain ⟨pre, post, htext, haround⟩ := last_around hfront hpad
    rw [hfront] at hall hlen
    obtain ⟨hs, hu⟩ := isAlphabet_kept (hall u (List.mem_append_right _ List.mem_cons_self))
    rcases (counts_around haround hall).1 (h pre u post htext hs hu) with hc | hc
    · exact hc rfl
    · rw [List.length_append, List.length_singleton] at hlen
      exact hc hlen
  · rintro hlen pre u post rfl hs hu
    obtain ⟨front, rest, hdigits, haround⟩ := digits_around hs hu hpad
    rw [hdigits] at hall hlen
    rw [counts_around haround hall]
    cases rest with
    | nil => exact Or.inr (by simpa using hlen)
    | cons x rest => exact Or.inl (List.cons_ne_nil _ _)

/-- **The documented input and nothing else is read, and all of it counts, exactly when** a character in front of the
padding is in neither alphabet, or nothing but padding follows it and the number of digits is not one more than a multiple
of four. -/
theorem exact_iff (text : JsString) : Exact text ↔ (∃ u ∈ digitsOf text, isAlphabet u = false) ∨
    (∀ u ∈ paddingOf text, u = unit '=') ∧ (digitsOf text).length % 4 ≠ 1 := by
  have hbad : (∃ u ∈ digitsOf text, isAlphabet u = false) ↔ ¬ (digitsOf text).all isAlphabet = true := by
    rw [List.all_eq_true]
    push Not
    simp only [Bool.not_eq_true]
  rw [hbad]
  by_cases hall : (digitsOf text).all isAlphabet = true
  · rw [or_iff_right (not_not.2 hall)]
    have hsome := (decodeBase64_isSome text).2 hall
    constructor
    · intro h
      have hpad := ((documented_iff text).1 (h.accepts.1 hsome)).2
      exact ⟨hpad, (counts_iff (List.all_eq_true.1 hall) hpad).1 (h.counts hsome)⟩
    · rintro ⟨hpad, hlen⟩
      exact ⟨iff_of_true hsome ((documented_iff text).2 ⟨hall, hpad⟩),
        fun _ => (counts_iff (List.all_eq_true.1 hall) hpad).2 hlen⟩
  · have hnone := mt (decodeBase64_isSome text).1 hall
    refine iff_of_true ⟨iff_of_false hnone fun h => hall ((documented_iff text).1 h).1, fun h => absurd h hnone⟩ (Or.inl hall)

/-- **What stands after the padding is ignored**: two padded lines, the second of which is lost. -/
theorem ignored : ¬ ∀ text : JsString, Exact text := by
  intro h
  obtain ⟨-, hpad⟩ := (documented_iff (js "QQ==\nQg==")).1 ((h (js "QQ==\nQg==")).accepts.1 (by decide))
  exact absurd (hpad (unit 'Q') (by decide)) (by decide)

end ShadowsocksOhos
