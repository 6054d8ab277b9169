/-
Binary64 numbers as rationals: `nearest` rounds to 53 significant bits, ties to even, down to the last place 2^-1074 of
the subnormal numbers, and overflows at 2^1024. A rational is a double when rounding leaves it alone.

- `nearest_of_mul`: a multiple of its own last place is a double.
- `isDouble_int`: so is every integer below 2^53.
- `nearest_large`: larger integers stay large.
- `isDouble_nearest`: rounding gives doubles.
- `nearest_neg`: it does not depend on the sign.
- `nearest_some`, `half_le_nearest`: a number that is not too large does not overflow, and one that is not too small does not
vanish.
-/
import Mathlib.Data.Nat.Log
import Mathlib.Tactic

namespace Binary64

/-! ## Rounding -/

def roundEven (q : ℚ) : ℤ :=
  if Int.fract q < 1 / 2 then ⌊q⌋
  else if 1 / 2 < Int.fract q then ⌊q⌋ + 1
  else if Even ⌊q⌋ then ⌊q⌋ else ⌊q⌋ + 1

/-- the binary logarithm, rounded down -/
def ilog (q : ℚ) : ℤ :=
  let d : ℤ := (Nat.log2 q.num.natAbs : ℤ) - Nat.log2 q.den
  if (2 : ℚ) ^ d ≤ |q| then d else d - 1

/-- the exponent of the last place -/
def lastPlace (q : ℚ) : ℤ := max (ilog q - 52) (-1074)

/-- the double next to a rational; `none` for an overflow -/
def nearest (q : ℚ) : Option ℚ :=
  let x := (roundEven (q / 2 ^ lastPlace q) : ℚ) * 2 ^ lastPlace q
  if |x| < 2 ^ 1024 then some x else none

def IsDouble (q : ℚ) : Prop := nearest q = some q

instance (q : ℚ) : Decidable (IsDouble q) := inferInstanceAs (Decidable (_ = _))

/-! ## Doubles -/

theorem roundEven_int (n : ℤ) : roundEven n = n := by
  unfold roundEven
  rw [Int.fract_intCast, if_pos (by norm_num), Int.floor_intCast]

theorem nearest_of_mul {q : ℚ} {m : ℤ} (hq : q = m * 2 ^ lastPlace q) (hlt : |q| < 2 ^ 1024) : IsDouble q := by
  have hpos : (2 : ℚ) ^ lastPlace q ≠ 0 := (zpow_pos two_pos _).ne'
  have hdiv : q / 2 ^ lastPlace q = m := by
    rw [div_eq_iff hpos]
    exact hq
  unfold IsDouble nearest
  simp only [hdiv, roundEven_int, ← hq]
  exact if_pos hlt

theorem ilog_int_le {n : ℤ} (h : n.natAbs < 2 ^ 53) : ilog (n : ℚ) ≤ 52 := by
  have hlog : Nat.log2 n.natAbs ≤ 52 := by
    by_cases h0 : n.natAbs = 0
    · rw [h0]
      decide
    · exact Nat.lt_succ_iff.1 ((Nat.log2_lt h0).2 h)
  have hden : Nat.log2 1 = 0 := by decide
  unfold ilog
  simp only [Rat.num_intCast, Rat.den_intCast, hden]
  split_ifs <;> omega

/-- **Integers below 2^53 are doubles.** -/
theorem isDouble_int {n : ℤ} (h : n.natAbs < 2 ^ 53) : IsDouble n := by
  have hplace : lastPlace (n : ℚ) ≤ 0 := by
    have := ilog_int_le h
    unfold lastPlace
    omega
  obtain ⟨k, hk⟩ := Int.exists_eq_neg_ofNat hplace
  have hmul : (n : ℚ) = ((n * 2 ^ k : ℤ) : ℚ) * 2 ^ lastPlace (n : ℚ) := by
    rw [hk]
    push_cast
    rw [zpow_neg, zpow_natCast, mul_assoc, mul_inv_cancel₀ (pow_ne_zero _ two_ne_zero), mul_one]
  refine nearest_of_mul hmul ?_
  have habs : |(n : ℚ)| = (n.natAbs : ℚ) := by
    rw [← Int.cast_abs, Int.abs_eq_natAbs, Int.cast_natCast]
  rw [habs]
  have hcast : (n.natAbs : ℚ) < 2 ^ 53 := by exact_mod_cast h
  exact hcast.trans (pow_lt_pow_right₀ one_lt_two (by decide))

/-- the denominator of a double is a power of two -/
theorem IsDouble.den {q : ℚ} (h : IsDouble q) : ∃ j, q.den = 2 ^ j := by
  unfold IsDouble nearest at h
  simp only [Option.ite_none_right_eq_some, Option.some.injEq] at h
  generalize roundEven (q / 2 ^ lastPlace q) = m at h
  obtain ⟨k, hk | hk⟩ := Int.eq_nat_or_neg (lastPlace q)
  · have hq : q = ((m * 2 ^ k : ℤ) : ℚ) := by
      rw [← h.2, hk]
      push_cast
      rw [zpow_natCast]
    exact ⟨0, by rw [hq, Rat.den_intCast, pow_zero]⟩
  · have hq : q = m / ((2 ^ k : ℕ) : ℤ) := by
      rw [← h.2, hk]
      push_cast
      rw [zpow_neg, zpow_natCast, div_eq_mul_inv]
    have hdvd : q.den ∣ 2 ^ k := by
      have := Rat.den_dvd m ((2 ^ k : ℕ) : ℤ)
      rw [Rat.divInt_eq_div, Int.cast_natCast] at this
      rw [hq, Int.cast_natCast]
      exact Int.natCast_dvd_natCast.1 this
    obtain ⟨j, -, hj⟩ := (Nat.dvd_prime_pow Nat.prime_two).1 hdvd
    exact ⟨j, hj⟩

/-! ## Large integers -/

theorem le_roundEven {q : ℚ} {m : ℤ} (h : (m : ℚ) ≤ q) : m ≤ roundEven q := by
  have hfloor : m ≤ ⌊q⌋ := Int.le_floor.2 h
  unfold roundEven
  split_ifs <;> omega

theorem roundEven_le {q : ℚ} {m : ℤ} (h : q ≤ m) : roundEven q ≤ m := by
  have hfloor : ⌊q⌋ ≤ m := Int.floor_le_iff.2 (h.trans_lt (lt_add_one _))
  rcases hfloor.lt_or_eq with hlt | heq
  · unfold roundEven
    split_ifs <;> omega
  · -- then it is the integer
    have hq : q = m := le_antisymm h (by rw [← heq]; exact Int.floor_le q)
    rw [hq, roundEven_int]

/-- rounding does not make a large integer small -/
theorem nearest_large {n : ℤ} (h : 2 ^ 53 ≤ n.natAbs) {x : ℚ} (hx : nearest n = some x) : 2 ^ 52 ≤ |x| := by
  have hn : n.natAbs ≠ 0 := by omega
  have hpow : 2 ^ Nat.log2 n.natAbs ≤ n.natAbs := Nat.log2_self_le hn
  have habs : |(n : ℚ)| = (n.natAbs : ℚ) := by
    rw [← Int.cast_abs, Int.abs_eq_natAbs, Int.cast_natCast]
  have hlog : 53 ≤ Nat.log2 n.natAbs := (Nat.le_log2 hn).2 h
  obtain ⟨k, hk⟩ := Nat.exists_eq_add_of_le hlog
  have hilog : ilog (n : ℚ) = Nat.log2 n.natAbs := by
    have hden : Nat.log2 1 = 0 := by decide
    have hle : (2 : ℚ) ^ ((Nat.log2 n.natAbs : ℕ) : ℤ) ≤ |(n : ℚ)| := by
      rw [habs, zpow_natCast]
      exact_mod_cast hpow
    unfold ilog
    simp only [Rat.num_intCast, Rat.den_intCast, hden, Nat.cast_zero, sub_zero]
    exact if_pos hle
  have hplace : lastPlace (n : ℚ) = ((k + 1 : ℕ) : ℤ) := by
    unfold lastPlace
    rw [hilog, hk]
    push_cast
    omega
  have hpos : (0 : ℚ) < 2 ^ (k + 1) := by positivity
  have hone : (1 : ℚ) ≤ 2 ^ (k + 1) := one_le_pow₀ one_le_two
  have hlarge : (2 : ℚ) ^ 52 ≤ |(n : ℚ) / 2 ^ (k + 1)| := by
    rw [abs_div, abs_of_pos hpos, le_div_iff₀ hpos, habs, ← pow_add]
    have : 2 ^ (52 + (k + 1)) ≤ n.natAbs := by
      rw [show 52 + (k + 1) = 53 + k by omega, ← hk]
      exact hpow
    exact_mod_cast this
  have hround : (2 : ℚ) ^ 52 ≤ |(roundEven ((n : ℚ) / 2 ^ (k + 1)) : ℚ)| := by
    rcases le_abs.1 hlarge with hup | hdown
    · have := le_roundEven (q := (n : ℚ) / 2 ^ (k + 1)) (m := 2 ^ 52) (by push_cast; exact hup)
      refine le_trans ?_ (le_abs_self _)
      exact_mod_cast this
    · have := roundEven_le (q := (n : ℚ) / 2 ^ (k + 1)) (m := -2 ^ 52) (by push_cast; linarith)
      refine le_trans ?_ (neg_le_abs _)
      have hcast : (roundEven ((n : ℚ) / 2 ^ (k + 1)) : ℚ) ≤ -2 ^ 52 := by exact_mod_cast this
      linarith
  unfold nearest at hx
  simp only [hplace, zpow_natCast, Option.ite_none_right_eq_some, Option.some.injEq] at hx
  rw [← hx.2, abs_mul, abs_of_pos hpos]
  calc (2 : ℚ) ^ 52 = 2 ^ 52 * 1 := (mul_one _).symm
    _ ≤ |(roundEven ((n : ℚ) / 2 ^ (k + 1)) : ℚ)| * 2 ^ (k + 1) := mul_le_mul hround hone zero_le_one (abs_nonneg _)

/-! ## Rounded numbers -/

theorem ilog_bounds {q : ℚ} (hq : q ≠ 0) : (2 : ℚ) ^ ilog q ≤ |q| ∧ |q| < 2 ^ (ilog q + 1) := by
  have hnum : q.num.natAbs ≠ 0 := by simpa using hq
  have habs : |q| = (q.num.natAbs : ℚ) / q.den := by
    rw [Rat.abs_def, Rat.divInt_eq_div]
    rfl
  have hden : (0 : ℚ) < q.den := by exact_mod_cast q.den_pos
  -- the numerator and the denominator between powers of two
  have hn1 : (2 : ℚ) ^ Nat.log2 q.num.natAbs ≤ q.num.natAbs := by exact_mod_cast Nat.log2_self_le hnum
  have hn2 : (q.num.natAbs : ℚ) < 2 ^ (Nat.log2 q.num.natAbs + 1) := by exact_mod_cast Nat.lt_log2_self
  have hd1 : (2 : ℚ) ^ Nat.log2 q.den ≤ q.den := by exact_mod_cast Nat.log2_self_le q.den_nz
  have hd2 : (q.den : ℚ) < 2 ^ (Nat.log2 q.den + 1) := by exact_mod_cast Nat.lt_log2_self
  have hlow : (2 : ℚ) ^ ((Nat.log2 q.num.natAbs : ℤ) - Nat.log2 q.den - 1) ≤ |q| := by
    rw [habs, le_div_iff₀ hden]
    calc (2 : ℚ) ^ ((Nat.log2 q.num.natAbs : ℤ) - Nat.log2 q.den - 1) * q.den
        ≤ 2 ^ ((Nat.log2 q.num.natAbs : ℤ) - Nat.log2 q.den - 1) * 2 ^ (Nat.log2 q.den + 1) := by gcongr
      _ = 2 ^ Nat.log2 q.num.natAbs := by
        rw [← zpow_natCast (2 : ℚ) (Nat.log2 q.den + 1), ← zpow_add₀ two_ne_zero, ← zpow_natCast]
        congr 1
        push_cast
        ring
      _ ≤ q.num.natAbs := hn1
  have hhigh : |q| < (2 : ℚ) ^ ((Nat.log2 q.num.natAbs : ℤ) - Nat.log2 q.den + 1) := by
    rw [habs, div_lt_iff₀ hden]
    calc (q.num.natAbs : ℚ) < 2 ^ (Nat.log2 q.num.natAbs + 1) := hn2
      _ = 2 ^ ((Nat.log2 q.num.natAbs : ℤ) - Nat.log2 q.den + 1) * 2 ^ Nat.log2 q.den := by
        rw [← zpow_natCast (2 : ℚ) (Nat.log2 q.den), ← zpow_add₀ two_ne_zero, ← zpow_natCast]
        congr 1
        push_cast
        ring
      _ ≤ 2 ^ ((Nat.log2 q.num.natAbs : ℤ) - Nat.log2 q.den + 1) * q.den := by gcongr
  unfold ilog
  by_cases h : (2 : ℚ) ^ ((Nat.log2 q.num.natAbs : ℤ) - Nat.log2 q.den) ≤ |q|
  · simp only [if_pos h]
    exact ⟨h, hhigh⟩
  · simp only [if_neg h, sub_add_cancel]
    exact ⟨hlow, not_le.1 h⟩

/-- a multiple of a power of two with 53 bits -/
theorem isDouble_mul_pow {m e : ℤ} (hm : m.natAbs ≤ 2 ^ 53) (he : -1074 ≤ e) (hlt : |(m : ℚ) * 2 ^ e| < 2 ^ 1024) :
    IsDouble ((m : ℚ) * 2 ^ e) := by
  -- fewer than 53 bits first
  have hless : ∀ {m e : ℤ}, m.natAbs < 2 ^ 53 → -1074 ≤ e → |(m : ℚ) * 2 ^ e| < 2 ^ 1024 → IsDouble ((m : ℚ) * 2 ^ e) := by
    intro m e hm he hlt
    by_cases hzero : m = 0
    · rw [hzero, Int.cast_zero, zero_mul]
      exact isDouble_int (n := 0) (by decide)
    have hpow : (2 : ℚ) ^ e ≠ 0 := (zpow_pos two_pos e).ne'
    have hne : (m : ℚ) * 2 ^ e ≠ 0 := mul_ne_zero (by exact_mod_cast hzero) hpow
    have hilog : ilog ((m : ℚ) * 2 ^ e) < 53 + e := by
      have habs : |(m : ℚ)| = (m.natAbs : ℚ) := by
        rw [← Int.cast_abs, Int.abs_eq_natAbs, Int.cast_natCast]
      have hcast : (m.natAbs : ℚ) < 2 ^ 53 := by exact_mod_cast hm
      rw [← zpow_lt_zpow_iff_right₀ (one_lt_two : (1 : ℚ) < 2)]
      calc (2 : ℚ) ^ ilog ((m : ℚ) * 2 ^ e) ≤ |(m : ℚ) * 2 ^ e| := (ilog_bounds hne).1
        _ = m.natAbs * 2 ^ e := by rw [abs_mul, habs, abs_of_pos (zpow_pos two_pos e)]
        _ < 2 ^ 53 * 2 ^ e := by gcongr
        _ = 2 ^ (53 + e) := by rw [zpow_add₀ two_ne_zero]; norm_num
    have hplace : lastPlace ((m : ℚ) * 2 ^ e) ≤ e := by
      unfold lastPlace
      omega
    obtain ⟨k, hk⟩ := Int.eq_ofNat_of_zero_le (sub_nonneg.2 hplace)
    have hmul : (m : ℚ) * 2 ^ e = ((m * 2 ^ k : ℤ) : ℚ) * 2 ^ lastPlace ((m : ℚ) * 2 ^ e) := by
      push_cast
      rw [mul_assoc, ← zpow_natCast, ← zpow_add₀ two_ne_zero, ← hk, sub_add_cancel]
    exact nearest_of_mul hmul hlt
  rcases hm.lt_or_eq with h | h
  · exact hless h he hlt
  · -- a power of two, with one bit
    obtain ⟨n, hn, hn'⟩ : ∃ n : ℤ, m = n * 2 ∧ n.natAbs < 2 ^ 53 := by
      rcases Int.natAbs_eq m with hm | hm
      · exact ⟨2 ^ 52, by rw [hm, h]; norm_num, by norm_num⟩
      · exact ⟨-2 ^ 52, by rw [hm, h]; norm_num, by norm_num⟩
    have heq : (m : ℚ) * 2 ^ e = (n : ℚ) * 2 ^ (e + 1) := by
      rw [hn, zpow_add₀ two_ne_zero]
      push_cast
      ring
    rw [heq] at hlt ⊢
    exact hless hn' (by omega) hlt

/-- **Rounding gives a double.** -/
theorem isDouble_nearest {q x : ℚ} (h : nearest q = some x) : IsDouble x := by
  unfold nearest at h
  simp only [Option.ite_none_right_eq_some, Option.some.injEq] at h
  obtain ⟨hlt, rfl⟩ := h
  refine isDouble_mul_pow ?_ (le_max_right _ _) hlt
  by_cases hq : q = 0
  · rw [hq, zero_div, show roundEven 0 = 0 from roundEven_int 0]
    decide
  -- at most 53 bits are left of the last place
  have hbound : |q / 2 ^ lastPlace q| ≤ ((2 ^ 53 : ℤ) : ℚ) := by
    have hpos : (0 : ℚ) < 2 ^ lastPlace q := zpow_pos two_pos _
    rw [abs_div, abs_of_pos hpos, div_le_iff₀ hpos]
    calc |q| ≤ 2 ^ (ilog q + 1) := (ilog_bounds hq).2.le
      _ ≤ 2 ^ (53 + lastPlace q) := zpow_le_zpow_right₀ one_le_two (by unfold lastPlace; omega)
      _ = ((2 ^ 53 : ℤ) : ℚ) * 2 ^ lastPlace q := by rw [zpow_add₀ two_ne_zero]; norm_num
  obtain ⟨hlow, hhigh⟩ := abs_le.1 hbound
  have h1 := roundEven_le hhigh
  have h2 := le_roundEven (q := q / 2 ^ lastPlace q) (m := -2 ^ 53) (by push_cast at hlow ⊢; exact hlow)
  omega

/-! ## Signs -/

theorem roundEven_neg (q : ℚ) : roundEven (-q) = -roundEven q := by
  by_cases hint : Int.fract q = 0
  · obtain ⟨n, hn⟩ : ∃ n : ℤ, q = n := ⟨⌊q⌋, by rw [← Int.floor_add_fract q, hint]; simp⟩
    rw [hn, ← Int.cast_neg, roundEven_int, roundEven_int]
  have hfract : Int.fract (-q) = 1 - Int.fract q := Int.fract_neg hint
  have hfloor : ⌊-q⌋ = -⌊q⌋ - 1 := by
    have h1 := Int.floor_add_fract q
    have h2 := Int.floor_add_fract (-q)
    rw [hfract] at h2
    have : ((⌊-q⌋ : ℤ) : ℚ) = ((-⌊q⌋ - 1 : ℤ) : ℚ) := by
      push_cast
      linarith
    exact_mod_cast this
  unfold roundEven
  rw [hfract, hfloor]
  have heven : Even (-⌊q⌋ - 1) ↔ ¬ Even ⌊q⌋ := by
    rw [Int.even_sub_one, even_neg]
  have hhalf : ¬ (1 / 2 : ℚ) < 1 / 2 := lt_irrefl _
  have hsub : (1 : ℚ) - 1 / 2 = 1 / 2 := by norm_num
  rcases lt_trichotomy (Int.fract q) (1 / 2) with h | h | h
  · rw [if_neg (by linarith), if_pos (by linarith), if_pos h]
    ring
  · rw [h, hsub, if_neg hhalf, if_neg hhalf, if_neg hhalf, if_neg hhalf]
    by_cases he : Even ⌊q⌋
    · rw [if_pos he, if_neg (by rw [heven]; exact not_not.2 he)]
      ring
    · rw [if_neg he, if_pos (heven.2 he)]
      ring
  · rw [if_pos (by linarith), if_neg (by linarith), if_pos h]
    ring

theorem lastPlace_neg (q : ℚ) : lastPlace (-q) = lastPlace q := by
  unfold lastPlace ilog
  rw [Rat.neg_num, Rat.neg_den, Int.natAbs_neg, abs_neg]

/-- a number and its opposite are rounded alike -/
theorem nearest_neg (q : ℚ) : nearest (-q) = (nearest q).map (- ·) := by
  unfold nearest
  simp only [lastPlace_neg, neg_div, roundEven_neg, Int.cast_neg, neg_mul, abs_neg]
  split_ifs <;> rfl

theorem IsDouble.of_neg {q : ℚ} (h : IsDouble (-q)) : IsDouble q := by
  unfold IsDouble at h ⊢
  rw [nearest_neg, Option.map_eq_some_iff] at h
  obtain ⟨x, hx, hxq⟩ := h
  rw [hx, neg_inj.1 hxq]

/-- an integer is rounded to an integer -/
theorem nearest_int {n : ℤ} {x : ℚ} (h : nearest (n : ℚ) = some x) : ∃ m : ℤ, x = m := by
  by_cases hlt : n.natAbs < 2 ^ 53
  · rw [show nearest (n : ℚ) = some (n : ℚ) from isDouble_int hlt] at h
    exact ⟨n, (Option.some.inj h).symm⟩
  have hne : (n : ℚ) ≠ 0 := by
    rintro hzero
    rw [Int.cast_eq_zero.1 hzero] at hlt
    exact hlt (by decide)
  have habs : |(n : ℚ)| = (n.natAbs : ℚ) := by
    rw [← Int.cast_abs, Int.abs_eq_natAbs, Int.cast_natCast]
  have hlarge : (2 : ℚ) ^ (53 : ℤ) ≤ |(n : ℚ)| := by
    rw [habs]
    exact_mod_cast not_lt.1 hlt
  have hilog := (zpow_lt_zpow_iff_right₀ (one_lt_two : (1 : ℚ) < 2)).1 (hlarge.trans_lt (ilog_bounds hne).2)
  obtain ⟨k, hk⟩ := Int.eq_ofNat_of_zero_le (by unfold lastPlace; omega : 0 ≤ lastPlace (n : ℚ))
  unfold nearest at h
  simp only [Option.ite_none_right_eq_some, Option.some.injEq, hk, zpow_natCast] at h
  refine ⟨roundEven ((n : ℚ) / 2 ^ k) * 2 ^ k, ?_⟩
  rw [← h.2]
  push_cast
  rfl

/-- an integer other than 0 is not rounded to 0 -/
theorem nearest_ne_zero {n : ℤ} (hn : n ≠ 0) {x : ℚ} (h : nearest (n : ℚ) = some x) : x ≠ 0 := by
  rintro rfl
  by_cases hlt : n.natAbs < 2 ^ 53
  · rw [show nearest (n : ℚ) = some (n : ℚ) from isDouble_int hlt, Option.some.injEq, Int.cast_eq_zero] at h
    exact hn h
  · have hlarge := nearest_large (not_lt.1 hlt) h
    norm_num at hlarge

/-! ## How far a number is rounded -/

theorem roundEven_near (q : ℚ) : |(roundEven q : ℚ) - q| ≤ 1 / 2 := by
  have hq : (⌊q⌋ : ℚ) + Int.fract q = q := Int.floor_add_fract q
  have h0 : 0 ≤ Int.fract q := Int.fract_nonneg q
  have h1 : Int.fract q < 1 := Int.fract_lt_one q
  unfold roundEven
  split_ifs <;> rw [abs_le] <;> push_cast <;> constructor <;> linarith

theorem zpow_lastPlace_le {q : ℚ} (hq : q ≠ 0) : (2 : ℚ) ^ lastPlace q ≤ max (|q| / 2 ^ 52) (2 ^ (-1074 : ℤ)) := by
  unfold lastPlace
  rcases le_total (ilog q - 52) (-1074) with h | h
  · rw [max_eq_right h]
    exact le_max_right _ _
  · rw [max_eq_left h, zpow_sub₀ two_ne_zero]
    refine le_max_of_le_left ?_
    rw [show (2 : ℚ) ^ (52 : ℤ) = 2 ^ 52 by norm_num]
    exact div_le_div_of_nonneg_right (ilog_bounds hq).1 (by positivity)

/-- by half of the last place at most -/
theorem rounded_near (q : ℚ) :
    |(roundEven (q / 2 ^ lastPlace q) : ℚ) * 2 ^ lastPlace q - q| ≤ 2 ^ lastPlace q / 2 := by
  have hpos : (0 : ℚ) < 2 ^ lastPlace q := zpow_pos two_pos _
  have hmul : (roundEven (q / 2 ^ lastPlace q) : ℚ) * 2 ^ lastPlace q - q =
      ((roundEven (q / 2 ^ lastPlace q) : ℚ) - q / 2 ^ lastPlace q) * 2 ^ lastPlace q := by
    rw [sub_mul, div_mul_cancel₀ _ hpos.ne']
  rw [hmul, abs_mul, abs_of_pos hpos]
  calc |(roundEven (q / 2 ^ lastPlace q) : ℚ) - q / 2 ^ lastPlace q| * 2 ^ lastPlace q
      ≤ 1 / 2 * 2 ^ lastPlace q := mul_le_mul_of_nonneg_right (roundEven_near _) hpos.le
    _ = 2 ^ lastPlace q / 2 := by ring

/-- **No overflow** below half of the largest power of two. -/
theorem nearest_some {q : ℚ} (h : |q| < 2 ^ 1023) : ∃ x, nearest q = some x ∧ |x| ≤ 2 * |q| + 1 := by
  by_cases hq : q = 0
  · refine ⟨0, by rw [hq]; exact isDouble_int (n := 0) (by decide), ?_⟩
    rw [abs_zero]
    positivity
  have hplace : (2 : ℚ) ^ lastPlace q ≤ |q| + 1 := by
    refine (zpow_lastPlace_le hq).trans (max_le ?_ ?_)
    · exact (div_le_self (abs_nonneg q) (one_le_pow₀ one_le_two)).trans (by linarith)
    · exact (zpow_le_one_of_nonpos₀ one_le_two (by decide)).trans (by linarith [abs_nonneg q])
  have hnear := rounded_near q
  have habs := abs_sub_abs_le_abs_sub ((roundEven (q / 2 ^ lastPlace q) : ℚ) * 2 ^ lastPlace q) q
  refine ⟨_, if_pos ?_, by linarith [abs_nonneg q]⟩
  have hone : (1 : ℚ) < 2 ^ 1023 := one_lt_pow₀ one_lt_two (by decide)
  rw [show (2 : ℚ) ^ 1024 = 2 ^ 1023 + 2 ^ 1023 by rw [← two_mul, ← pow_succ']]
  generalize (2 : ℚ) ^ 1023 = largest at h hone
  linarith

/-- **A number that is not too small stays so.** -/
theorem half_le_nearest {q x : ℚ} (hlow : (2 : ℚ) ^ (-1022 : ℤ) ≤ q) (h : nearest q = some x) : q / 2 ≤ x := by
  have hq : 0 < q := (zpow_pos two_pos _).trans_le hlow
  have hx : (roundEven (q / 2 ^ lastPlace q) : ℚ) * 2 ^ lastPlace q = x := by
    unfold nearest at h
    simp only [Option.ite_none_right_eq_some, Option.some.injEq] at h
    exact h.2
  have hplace : (2 : ℚ) ^ lastPlace q ≤ q := by
    refine (zpow_lastPlace_le hq.ne').trans (max_le ?_ ?_)
    · rw [abs_of_pos hq]
      exact div_le_self hq.le (one_le_pow₀ one_le_two)
    · exact (zpow_le_zpow_right₀ one_le_two (by decide)).trans hlow
  have := (abs_le.1 (rounded_near q)).1
  rw [hx] at this
  linarith

example : nearest (1 / 10) = some (3602879701896397 / 36028797018963968) := by decide +kernel

end Binary64
