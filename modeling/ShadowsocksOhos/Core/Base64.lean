/-
Base64 as a numeral system: three bytes are four digits of six bits each, a last group of one or two bytes is padded
with zero bits and, in the padded form, with pad characters. `encode` writes the digits in any alphabet and leaves the
pad characters to the caller, so that it covers the standard and the URL-safe alphabet with or without padding. `pack`
reads digits one by one and gives a byte whenever eight bits are there; it undoes `sextets`.
-/
import Mathlib.Tactic

namespace Base64

/-- the six-bit digits of a byte list -/
def sextets : List UInt8 → List ℕ
  | [] => []
  | [a] => [a.toNat / 4, a.toNat % 4 * 16]
  | [a, b] => [a.toNat / 4, a.toNat % 4 * 16 + b.toNat / 16, b.toNat % 16 * 4]
  | a :: b :: c :: rest =>
    a.toNat / 4 :: (a.toNat % 4 * 16 + b.toNat / 16) :: (b.toNat % 16 * 4 + c.toNat / 64) :: c.toNat % 64 ::
      sextets rest

/-- how many pad characters the padded form ends in -/
def padding (bytes : List UInt8) : ℕ := (3 - bytes.length % 3) % 3

/-- the base64 text of a byte list, in the alphabet `digit`, padded with `pad` when there is one -/
def encode {γ : Type*} (digit : ℕ → γ) (pad : Option γ) (bytes : List UInt8) : List γ :=
  (sextets bytes).map digit ++ (match pad with | some p => List.replicate (padding bytes) p | none => [])

/-- the digits `A–Z a–z 0–9` that both alphabets share; the last two are `c62` and `c63` -/
def digitWith (c62 c63 : Char) (v : ℕ) : Char :=
  if v < 26 then Char.ofNat (65 + v)
  else if v < 52 then Char.ofNat (71 + v)
  else if v < 62 then Char.ofNat (v - 4)
  else if v = 62 then c62 else c63

def standard : ℕ → Char := digitWith '+' '/'

def urlSafe : ℕ → Char := digitWith '-' '_'

theorem sextets_lt (bytes : List UInt8) : ∀ v ∈ sextets bytes, v < 64 := by
  induction bytes using sextets.induct with
  | case1 => simp [sextets]
  | case2 a =>
    have := a.toNat_lt
    simp only [sextets, List.mem_cons, List.not_mem_nil, or_false]
    rintro v (rfl | rfl) <;> omega
  | case3 a b =>
    have := a.toNat_lt; have := b.toNat_lt
    simp only [sextets, List.mem_cons, List.not_mem_nil, or_false]
    rintro v (rfl | rfl | rfl) <;> omega
  | case4 a b c rest ih =>
    have := a.toNat_lt; have := b.toNat_lt; have := c.toNat_lt
    simp only [sextets, List.mem_cons]
    rintro v (rfl | rfl | rfl | rfl | hv)
    · omega
    · omega
    · omega
    · omega
    · exact ih v hv

theorem sextets_ne_nil {bytes : List UInt8} (h : bytes ≠ []) : sextets bytes ≠ [] := by
  cases bytes using sextets.fun_cases with
  | case1 => exact absurd rfl h
  | case2 a => simp [sextets]
  | case3 a b => simp [sextets]
  | case4 a b c rest => simp [sextets]

theorem mem_encode {γ : Type*} {digit : ℕ → γ} {pad : Option γ} {bytes : List UInt8} {u : γ}
    (h : u ∈ encode digit pad bytes) : (∃ v < 64, u = digit v) ∨ pad = some u := by
  rcases List.mem_append.1 h with hd | hp
  · obtain ⟨v, hv, rfl⟩ := List.mem_map.1 hd
    exact Or.inl ⟨v, sextets_lt _ v hv, rfl⟩
  · cases pad with
    | none => cases hp
    | some p => exact Or.inr (congrArg some (List.eq_of_mem_replicate hp).symm)

/-! ## Back to bytes -/

/-- the bytes of a digit list, when `pending`, of `bits` bits, has been read and not been used -/
def pack (pending bits : ℕ) : List ℕ → List ℕ
  | [] => []
  | v :: vs =>
    if 8 ≤ bits + 6 then
      (pending * 64 + v) / 2 ^ (bits - 2) :: pack ((pending * 64 + v) % 2 ^ (bits - 2)) (bits - 2) vs
    else pack (pending * 64 + v) (bits + 6) vs

theorem pack_sextets (bytes : List UInt8) : pack 0 0 (sextets bytes) = bytes.map UInt8.toNat := by
  induction bytes using sextets.induct with
  | case1 => rfl
  | case2 a =>
    have := a.toNat_lt
    simp [sextets, pack]
    omega
  | case3 a b =>
    have := a.toNat_lt; have := b.toNat_lt
    simp [sextets, pack]
    omega
  | case4 a b c rest ih =>
    have := a.toNat_lt; have := b.toNat_lt; have := c.toNat_lt
    simp [sextets, pack, ← ih]
    refine ⟨by omega, by omega, by omega, ?_⟩
    -- four digits leave nothing pending
    rw [Nat.mod_one]

/-! ## Which digits count -/

/-- the number that digits spell, the highest one first -/
def number (base : ℕ) : List ℕ → ℕ
  | [] => 0
  | d :: ds => d * base ^ ds.length + number base ds

theorem number_append (base : ℕ) (as bs : List ℕ) :
    number base (as ++ bs) = number base as * base ^ bs.length + number base bs := by
  induction as with
  | nil => simp [number]
  | cons a as ih =>
    rw [List.cons_append, number, number, ih, List.length_append, pow_add]
    ring

theorem length_pack (pending : ℕ) {bits : ℕ} (hb : bits < 8) (vs : List ℕ) :
    (pack pending bits vs).length = (bits + 6 * vs.length) / 8 := by
  induction vs generalizing pending bits with
  | nil => simp only [pack, List.length_nil]; omega
  | cons v vs ih =>
    unfold pack
    split_ifs with h
    · rw [List.length_cons, ih _ (by omega), List.length_cons]
      omega
    · rw [ih _ (by omega), List.length_cons]
      congr 1
      omega

/-- the bytes spell what the digits spell, without the bits that are left over -/
theorem number_pack {pending bits : ℕ} (hp : pending < 2 ^ bits) (hb : bits < 8) {vs : List ℕ} (hvs : ∀ v ∈ vs, v < 64) :
    number 256 (pack pending bits vs) =
      (pending * 64 ^ vs.length + number 64 vs) / 2 ^ ((bits + 6 * vs.length) % 8) := by
  induction vs generalizing pending bits with
  | nil =>
    rw [List.length_nil, Nat.mul_zero, Nat.add_zero, Nat.mod_eq_of_lt hb, pow_zero, Nat.mul_one]
    exact (Nat.div_eq_of_lt hp).symm
  | cons v vs ih =>
    have hv : v < 64 := hvs v List.mem_cons_self
    have hvs' : ∀ w ∈ vs, w < 64 := fun w hw => hvs w (List.mem_cons_of_mem _ hw)
    -- the number that has been read with `v`
    have htotal : pending * 64 ^ (v :: vs).length + number 64 (v :: vs) =
        (pending * 64 + v) * 64 ^ vs.length + number 64 vs := by
      rw [List.length_cons, number]
      ring
    have hlen : (v :: vs).length = vs.length + 1 := rfl
    rw [htotal, hlen]
    unfold pack
    split_ifs with h8
    · generalize ht : pending * 64 + v = t
      obtain ⟨b, rfl⟩ : ∃ b, bits = b + 2 := ⟨bits - 2, by omega⟩
      have hbits : (b + 2 + 6 * (vs.length + 1)) % 8 = (b + 6 * vs.length) % 8 := by omega
      have hpow : 2 ^ b * 64 ^ vs.length = 256 ^ ((b + 6 * vs.length) / 8) * 2 ^ ((b + 6 * vs.length) % 8) := by
        rw [show (64 : ℕ) = 2 ^ 6 from rfl, show (256 : ℕ) = 2 ^ 8 from rfl, ← pow_mul, ← pow_mul, ← pow_add, ← pow_add]
        congr 1
        omega
      have hsplit : t * 64 ^ vs.length + number 64 vs = t % 2 ^ b * 64 ^ vs.length + number 64 vs +
          t / 2 ^ b * 256 ^ ((b + 6 * vs.length) / 8) * 2 ^ ((b + 6 * vs.length) % 8) := by
        calc t * 64 ^ vs.length + number 64 vs
            = (2 ^ b * (t / 2 ^ b) + t % 2 ^ b) * 64 ^ vs.length + number 64 vs := by rw [Nat.div_add_mod]
          _ = t % 2 ^ b * 64 ^ vs.length + number 64 vs + t / 2 ^ b * (2 ^ b * 64 ^ vs.length) := by ring
          _ = _ := by rw [hpow]; ring
      rw [Nat.add_sub_cancel, number, length_pack _ (by omega), ih (Nat.mod_lt _ (by positivity)) (by omega) hvs', hbits,
        hsplit, Nat.add_mul_div_right _ _ (by positivity)]
      ring
    · have hlt : pending * 64 + v < 2 ^ (bits + 6) := by
        rw [pow_add]
        omega
      rw [ih hlt (by omega) hvs']
      congr 3
      omega

/-- a digit whose first bit is in one of the bytes counts -/
theorem pack_ne {pre post : List ℕ} {v : ℕ} (hvs : ∀ w ∈ pre ++ (v + 32) :: post, w < 64)
    (h : post ≠ [] ∨ (pre.length + 1) % 4 ≠ 1) : pack 0 0 (pre ++ v :: post) ≠ pack 0 0 (pre ++ (v + 32) :: post) := by
  have hv : ∀ w ∈ pre ++ v :: post, w < 64 := by
    rw [List.forall_mem_append, List.forall_mem_cons] at hvs ⊢
    obtain ⟨hpre, hlt, hpost⟩ := hvs
    exact ⟨hpre, by omega, hpost⟩
  have hsum : number 64 (pre ++ (v + 32) :: post) = number 64 (pre ++ v :: post) + 2 ^ (5 + 6 * post.length) := by
    rw [number_append, number_append, number, number, pow_add, pow_mul, List.length_cons, List.length_cons]
    ring
  have hlen : ∀ x, (pre ++ x :: post).length = pre.length + 1 + post.length := by
    intro x
    rw [List.length_append, List.length_cons]
    omega
  -- the bits that are left over are fewer than those from the first one of the digit on
  have hleft : (0 + 6 * (pre.length + 1 + post.length)) % 8 ≤ 5 + 6 * post.length := by
    rcases Nat.eq_zero_or_pos post.length with hzero | hpos
    · have hmod := h.resolve_left (not_not.2 (List.length_eq_zero_iff.1 hzero))
      omega
    · omega
  obtain ⟨k, hk⟩ := Nat.exists_eq_add_of_le hleft
  intro heq
  have hnum := congrArg (number 256) heq
  have hpow : 2 ^ (5 + 6 * post.length) = 2 ^ k * 2 ^ ((0 + 6 * (pre.length + 1 + post.length)) % 8) := by
    rw [hk, pow_add]
    exact Nat.mul_comm _ _
  rw [number_pack Nat.one_pos (by decide) hv, number_pack Nat.one_pos (by decide) hvs, hsum, hlen, hlen, hpow] at hnum
  simp only [Nat.zero_mul, Nat.zero_add] at hnum
  rw [Nat.add_mul_div_right _ _ (by positivity)] at hnum
  have hpos : 0 < 2 ^ k := by positivity
  omega

/-- a digit that begins a byte and is the last one does not -/
theorem pack_last (pending : ℕ) {bits : ℕ} (hb : bits < 8) (vs : List ℕ) (v : ℕ) (h : (bits + 6 * vs.length) % 8 = 0) :
    pack pending bits (vs ++ [v]) = pack pending bits vs := by
  induction vs generalizing pending bits with
  | nil =>
    have h0 : bits = 0 := by simpa [Nat.mod_eq_of_lt hb] using h
    rw [h0]
    rfl
  | cons w vs ih =>
    rw [List.length_cons] at h
    rw [List.cons_append, pack, pack]
    split_ifs with h8
    · rw [ih _ (by omega) (by omega)]
    · rw [ih _ (by omega) (by omega)]

end Base64
