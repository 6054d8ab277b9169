/-
The shortest decimal that a test accepts: the numbers of digits are tried one after another, and at each of them the
neighbours of the given number. It is how a float is printed, with a test that reads the decimal back.

- `shortest_nat`: a natural number that is accepted itself has a shortest decimal without digits after the point, which is
as long as the number unless it is the next power of ten.
- `shortest_some`: a positive number whose denominator is a power of two has a shortest decimal, if it is accepted itself.
-/
import Mathlib.Data.Int.Log
import Mathlib.Data.List.MinMax
import Mathlib.Tactic

namespace Shortest

/-! ## Decimals -/

/-- the `k` digits of `s`, and the point after `n` places -/
structure Digits where
  n : ℤ
  k : ℕ
  s : ℕ
deriving DecidableEq, Repr

def Digits.value (d : Digits) : ℚ := d.s * 10 ^ (d.n - d.k)

/-- there are `k` digits, and the first of them is not 0 -/
def Digits.WellFormed (d : Digits) : Prop := 1 ≤ d.k ∧ 10 ^ (d.k - 1) ≤ d.s ∧ d.s < 10 ^ d.k

instance (d : Digits) : Decidable d.WellFormed := inferInstanceAs (Decidable (_ ∧ _))

/-- the places before the point -/
def magnitude (x : ℚ) : ℤ := Int.log 10 x + 1

/-- the decimals of `k` digits next to a number, which may have one place more -/
def neighbours (x : ℚ) (k : ℕ) : List Digits :=
  [magnitude x, magnitude x + 1].flatMap fun n : ℤ =>
    let s := ⌊x / 10 ^ (n - k)⌋₊
    [⟨n, k, s⟩, ⟨n, k, s + 1⟩]

variable (accepts : ℚ → Bool)

/-- the closest one that is accepted -/
def closest (x : ℚ) (k : ℕ) : Option Digits :=
  ((neighbours x k).filter fun d => d.WellFormed ∧ accepts d.value).argmin fun d => |d.value - x|

/-- a number whose denominator is a power of two has no more digits than that -/
def shortest (x : ℚ) : Option Digits :=
  (List.range (magnitude x + Nat.log2 x.den).toNat).findSome? fun i => closest accepts x (i + 1)

/-! ## Natural numbers -/

variable {accepts}

theorem mem_neighbours {x : ℚ} {k : ℕ} {d : Digits} : d ∈ neighbours x k ↔
    (d.n = magnitude x ∨ d.n = magnitude x + 1) ∧ d.k = k ∧
      (d.s = ⌊x / 10 ^ (d.n - k)⌋₊ ∨ d.s = ⌊x / 10 ^ (d.n - k)⌋₊ + 1) := by
  obtain ⟨n, k', s⟩ := d
  simp only [neighbours, List.flatMap_cons, List.flatMap_nil, List.append_nil, List.cons_append, List.nil_append,
    List.mem_cons, List.not_mem_nil, or_false, Digits.mk.injEq]
  constructor
  · rintro (⟨rfl, rfl, hs⟩ | ⟨rfl, rfl, hs⟩ | ⟨rfl, rfl, hs⟩ | ⟨rfl, rfl, hs⟩) <;> simp [hs]
  · rintro ⟨rfl | rfl, rfl, hs⟩ <;> simp [hs]

theorem closest_some {x : ℚ} {k : ℕ} {d : Digits} (h : closest accepts x k = some d) :
    d ∈ neighbours x k ∧ d.WellFormed ∧ accepts d.value = true := by
  have hmem := List.argmin_mem h
  simpa using hmem

theorem closest_isSome {x : ℚ} {k : ℕ} {d : Digits} (hd : d ∈ neighbours x k) (hwell : d.WellFormed)
    (haccepts : accepts d.value = true) : ∃ d', closest accepts x k = some d' := by
  rw [← Option.ne_none_iff_exists']
  unfold closest
  rw [ne_eq, List.argmin_eq_none]
  have hmem : d ∈ (neighbours x k).filter fun d => decide (d.WellFormed ∧ accepts d.value) :=
    List.mem_filter.2 ⟨hd, by simp [hwell, haccepts]⟩
  exact List.ne_nil_of_mem hmem

/-- a positive number between two powers of ten -/
theorem magnitude_bounds {x : ℚ} (h : 0 < x) : (10 : ℚ) ^ (magnitude x - 1) ≤ x ∧ x < 10 ^ magnitude x := by
  unfold magnitude
  rw [add_sub_cancel_right]
  exact ⟨by exact_mod_cast Int.zpow_log_le_self (b := 10) (by decide) h,
    by exact_mod_cast Int.lt_zpow_succ_log_self (b := 10) (by decide) x⟩

theorem magnitude_nat {m : ℕ} (h : 0 < m) : 1 ≤ magnitude (m : ℚ) := by
  have hlt := (magnitude_bounds (Nat.cast_pos.2 h : (0 : ℚ) < m)).2
  have hone : (10 : ℚ) ^ (0 : ℤ) ≤ m := by
    rw [zpow_zero]
    exact_mod_cast h
  have := (zpow_lt_zpow_iff_right₀ (by norm_num : (1 : ℚ) < 10)).1 (hone.trans_lt hlt)
  omega

/-- one place more than the number has: it is a power of ten -/
theorem value_of_carry {x : ℚ} (hx : 0 < x) {k : ℕ} {d : Digits} (hd : d ∈ neighbours x k) (hwell : d.WellFormed)
    (hn : d.n = magnitude x + 1) : d.value = 10 ^ magnitude x := by
  obtain ⟨-, rfl, hs⟩ := mem_neighbours.1 hd
  obtain ⟨hk, hlow, -⟩ := hwell
  obtain ⟨j, hj⟩ := Nat.exists_eq_add_of_le' hk
  have hpos : (0 : ℚ) < 10 ^ (d.n - d.k) := zpow_pos (by norm_num) _
  have hsplit : (10 : ℚ) ^ magnitude x = 10 ^ j * 10 ^ (d.n - d.k) := by
    rw [← zpow_natCast, ← zpow_add₀ (by norm_num)]
    congr 1
    omega
  have hfloor : ⌊x / 10 ^ (d.n - d.k)⌋₊ < 10 ^ j := by
    rw [Nat.floor_lt (div_pos hx hpos).le, div_lt_iff₀ hpos]
    push_cast
    rw [← hsplit]
    exact (magnitude_bounds hx).2
  have hs' : d.s = 10 ^ j := by
    rw [hj, Nat.add_sub_cancel] at hlow
    omega
  unfold Digits.value
  rw [hs', hsplit]
  push_cast
  ring

variable (accepts) in
/-- **The shortest decimal of a natural number.** -/
theorem shortest_nat {m : ℕ} (hm : 0 < m) (haccepts : accepts m = true) :
    ∃ d, shortest accepts m = some d ∧ d.WellFormed ∧ accepts d.value = true ∧ d.k ≤ d.n ∧
      (d.n = magnitude m ∨ d.n = magnitude m + 1 ∧ d.value = 10 ^ magnitude m) := by
  have hpos : (0 : ℚ) < m := by exact_mod_cast hm
  obtain ⟨k, hk⟩ := Int.eq_ofNat_of_zero_le (by have := magnitude_nat hm; omega : 0 ≤ magnitude (m : ℚ) - 1)
  have hmag : magnitude (m : ℚ) = ((k + 1 : ℕ) : ℤ) := by
    push_cast
    omega
  obtain ⟨hlow, hhigh⟩ := magnitude_bounds hpos
  rw [hmag] at hlow hhigh
  -- all the digits of the number are one of the decimals that are tried
  have hself : (⟨magnitude m, k + 1, m⟩ : Digits) ∈ neighbours m (k + 1) := by
    refine mem_neighbours.2 ⟨Or.inl rfl, rfl, Or.inl ?_⟩
    simp [hmag]
  have hwell : (⟨magnitude m, k + 1, m⟩ : Digits).WellFormed := by
    refine ⟨by simp, ?_, ?_⟩
    · push_cast at hlow
      rw [add_sub_cancel_right, zpow_natCast] at hlow
      exact_mod_cast hlow
    · rw [zpow_natCast] at hhigh
      exact_mod_cast hhigh
  have hvalue : (⟨magnitude m, k + 1, m⟩ : Digits).value = m := by
    simp [Digits.value, hmag]
  obtain ⟨d', hd'⟩ := closest_isSome hself hwell (hvalue ▸ haccepts)
  have hfuel : (magnitude (m : ℚ) + Nat.log2 (m : ℚ).den).toNat = k + 1 := by
    have hden : Nat.log2 1 = 0 := by decide
    rw [Rat.den_natCast, hden, hmag]
    rfl
  have hfound : shortest accepts m ≠ none := by
    intro hnone
    unfold shortest at hnone
    rw [List.findSome?_eq_none_iff] at hnone
    have := hnone k (List.mem_range.2 (by omega))
    rw [hd'] at this
    cases this
  obtain ⟨d, hd⟩ := Option.ne_none_iff_exists'.1 hfound
  refine ⟨d, hd, ?_⟩
  obtain ⟨i, hi, hclosest⟩ := List.exists_of_findSome?_eq_some hd
  rw [List.mem_range, hfuel] at hi
  obtain ⟨hmem, hwell', haccepts'⟩ := closest_some hclosest
  obtain ⟨hn, hdk, -⟩ := mem_neighbours.1 hmem
  refine ⟨hwell', haccepts', by omega, ?_⟩
  rcases hn with hn | hn
  · exact Or.inl hn
  · exact Or.inr ⟨hn, value_of_carry hpos hmem hwell' hn⟩

/-! ## Numbers whose denominator is a power of two -/

variable (accepts) in
/-- **The shortest decimal of a double.** All its digits are tried at last. -/
theorem shortest_some {x : ℚ} (hx : 0 < x) {j : ℕ} (hden : x.den = 2 ^ j) (haccepts : accepts x = true) :
    ∃ d, shortest accepts x = some d ∧ d.WellFormed ∧ accepts d.value = true := by
  -- the digits are those of an integer
  obtain ⟨m, hm⟩ : ∃ m : ℕ, x * 10 ^ j = m := by
    refine ⟨x.num.natAbs * 5 ^ j, ?_⟩
    have hnum : ((x.num.natAbs : ℕ) : ℚ) = x * 2 ^ j := by
      have hmul : x * x.den = x.num := Rat.mul_den_eq_num x
      rw [hden, Nat.cast_pow, Nat.cast_ofNat] at hmul
      rw [hmul, ← Int.cast_natCast, Int.natAbs_of_nonneg (Rat.num_nonneg.2 hx.le)]
    push_cast
    rw [hnum, mul_assoc, ← mul_pow]
    norm_num
  have hten : (0 : ℚ) < 10 ^ j := by positivity
  have hmpos : (0 : ℚ) < m := hm ▸ mul_pos hx hten
  obtain ⟨hlow, hhigh⟩ := magnitude_bounds hx
  have hplaces : 0 < magnitude x + j := by
    have hone : (1 : ℚ) ≤ x * 10 ^ j := by
      rw [hm]
      exact_mod_cast Nat.cast_pos.1 hmpos
    have hlt : (10 : ℚ) ^ (0 : ℤ) < 10 ^ (magnitude x + j) := by
      rw [zpow_zero, zpow_add₀ (by norm_num), zpow_natCast]
      exact hone.trans_lt (mul_lt_mul_of_pos_right hhigh hten)
    exact (zpow_lt_zpow_iff_right₀ (by norm_num : (1 : ℚ) < 10)).1 hlt
  obtain ⟨k, hk⟩ := Int.eq_ofNat_of_zero_le (by omega : 0 ≤ magnitude x + j - 1)
  have hexp : magnitude x - ((k + 1 : ℕ) : ℤ) = -j := by
    push_cast
    omega
  have hdiv : x / 10 ^ (magnitude x - ((k + 1 : ℕ) : ℤ)) = m := by
    rw [hexp, zpow_neg, zpow_natCast, div_inv_eq_mul, hm]
  have hself : (⟨magnitude x, k + 1, m⟩ : Digits) ∈ neighbours x (k + 1) := by
    refine mem_neighbours.2 ⟨Or.inl rfl, rfl, Or.inl ?_⟩
    rw [hdiv, Nat.floor_natCast]
  have hwell : (⟨magnitude x, k + 1, m⟩ : Digits).WellFormed := by
    refine ⟨by simp, ?_, ?_⟩
    · have hle : (10 : ℚ) ^ (k : ℤ) ≤ m := by
        rw [← hm, show (k : ℤ) = magnitude x - 1 + j by omega, zpow_add₀ (by norm_num), zpow_natCast]
        exact mul_le_mul_of_nonneg_right hlow hten.le
      rw [zpow_natCast] at hle
      exact_mod_cast hle
    · have hlt : (m : ℚ) < 10 ^ ((k + 1 : ℕ) : ℤ) := by
        rw [← hm, show ((k + 1 : ℕ) : ℤ) = magnitude x + j by push_cast; omega, zpow_add₀ (by norm_num), zpow_natCast]
        exact mul_lt_mul_of_pos_right hhigh hten
      rw [zpow_natCast] at hlt
      exact_mod_cast hlt
  have hvalue : (⟨magnitude x, k + 1, m⟩ : Digits).value = x := by
    unfold Digits.value
    rw [hexp, zpow_neg, zpow_natCast, ← hm, mul_inv_cancel_right₀ hten.ne']
  obtain ⟨d', hd'⟩ := closest_isSome hself hwell (hvalue ▸ haccepts)
  have hfuel : (magnitude x + Nat.log2 x.den).toNat = k + 1 := by
    rw [hden, Nat.log2_two_pow]
    omega
  have hfound : shortest accepts x ≠ none := by
    intro hnone
    unfold shortest at hnone
    rw [List.findSome?_eq_none_iff] at hnone
    have := hnone k (List.mem_range.2 (by omega))
    rw [hd'] at this
    cases this
  obtain ⟨d, hd⟩ := Option.ne_none_iff_exists'.1 hfound
  obtain ⟨i, -, hclosest⟩ := List.exists_of_findSome?_eq_some hd
  obtain ⟨-, hwell', haccepts'⟩ := closest_some hclosest
  exact ⟨d, hd, hwell', haccepts'⟩

end Shortest
