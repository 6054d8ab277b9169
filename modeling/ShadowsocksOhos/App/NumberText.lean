/-
Numbers as strings (`toString`): the shortest decimal that is rounded to the number, written out up to 21 places and with
an exponent beyond.

- `parseInt_numberText`: an integer below 10^21 is read back, after rounding.
- `parseInt_numberText_large`: of a larger one only the first digit is.
-/
import ShadowsocksOhos.App.JsValue
import ShadowsocksOhos.Core.Shortest

namespace ShadowsocksOhos

open Shortest

/-! ## toString -/

/-- a point among the digits, zeros on either side of them, or an exponent -/
def digitsText (d : Digits) : JsString :=
  let digits := utf16 (Nat.toDigits 10 d.s)
  if d.k ≤ d.n ∧ d.n ≤ 21 then digits ++ List.replicate (d.n - d.k).toNat (unit '0')
  else if 0 < d.n ∧ d.n ≤ 21 then digits.take d.n.toNat ++ unit '.' :: digits.drop d.n.toNat
  else if -6 < d.n ∧ d.n ≤ 0 then js "0." ++ (List.replicate (-d.n).toNat (unit '0') ++ digits)
  else
    digits.take 1 ++ ((if d.k = 1 then [] else unit '.' :: digits.drop 1) ++
      unit 'e' :: (if 0 < d.n then unit '+' else unit '-') :: utf16 (Nat.toDigits 10 (d.n - 1).natAbs))

/-- the text of a positive double, which always has digits -/
def positiveText (x : ℚ) : JsString := ((shortest (fun v => Binary64.nearest v = some x) x).map digitsText).getD []

def numberText : JsNumber → JsString
  | .finite q => if q = 0 then js "0" else if q < 0 then unit '-' :: positiveText (-q) else positiveText q
  | .infinite negative => if negative then js "-Infinity" else js "Infinity"

example : numberText (.finite (10 ^ 21)) = js "1e+21" := by decide +kernel

/-! ## Integers -/

theorem digitsValue_append_zeros (s : JsString) (m : ℕ) :
    digitsValue (s ++ List.replicate m (unit '0')) = digitsValue s * 10 ^ m := by
  have hzero : (unit '0').toNat - 0x30 = 0 := by decide
  induction m with
  | zero => simp
  | succ m ih =>
    have hlast : digitsValue (s ++ List.replicate (m + 1) (unit '0')) =
        10 * digitsValue (s ++ List.replicate m (unit '0')) + ((unit '0').toNat - 0x30) := by
      rw [List.replicate_succ', ← List.append_assoc]
      exact List.foldl_append
    rw [hlast, ih, hzero, pow_succ]
    ring

/-- digits in front of something else, with or without a minus before them -/
theorem parseInt_digits {s rest : JsString} (hne : s ≠ []) (h : ∀ u ∈ s, isDigit u = true)
    (hrest : ∀ u ∈ rest.head?, isDigit u = false) :
    parseInt (s ++ rest) = some (digitsValue s : ℤ) ∧ parseInt (unit '-' :: (s ++ rest)) = some (-(digitsValue s : ℤ)) := by
  have htake : (s ++ rest).takeWhile isDigit = s := by
    have hempty : rest.takeWhile isDigit = [] := by
      cases rest with
      | nil => rfl
      | cons u rest => exact List.takeWhile_cons_of_neg (by simp [hrest u rfl])
    rw [List.takeWhile_append_of_pos h, hempty, List.append_nil]
  constructor
  · obtain ⟨u, t, rfl⟩ := List.exists_cons_of_ne_nil hne
    rw [List.cons_append, parseInt_digit (h u List.mem_cons_self), ← List.cons_append, htake]
  · have hspace : (unit '-' :: (s ++ rest)).dropWhile isJsSpace = unit '-' :: (s ++ rest) :=
      List.dropWhile_cons_of_neg (by decide)
    unfold parseInt
    simp only [hspace, if_true, htake, if_neg hne, neg_one_mul]

/-- the text of a number without digits after the point -/
theorem digitsText_int {d : Digits} (hkn : d.k ≤ d.n) (hn : d.n ≤ 21) : ∃ m : ℕ, (m : ℚ) = d.value ∧ digitsText d ≠ [] ∧
    (∀ u ∈ digitsText d, isDigit u = true) ∧ digitsValue (digitsText d) = m := by
  have htext : digitsText d = utf16 (Nat.toDigits 10 d.s) ++ List.replicate (d.n - d.k).toNat (unit '0') :=
    if_pos ⟨hkn, hn⟩
  refine ⟨d.s * 10 ^ (d.n - d.k).toNat, ?_, ?_, ?_, ?_⟩
  · unfold Digits.value
    rw [Nat.cast_mul, Nat.cast_pow, Nat.cast_ofNat, ← zpow_natCast, Int.toNat_of_nonneg (sub_nonneg.2 hkn)]
  · rw [htext]
    exact List.append_ne_nil_of_left_ne_nil (utf16_ne_nil Nat.toDigits_ne_nil) _
  · rw [htext]
    intro u hu
    rcases List.mem_append.1 hu with hu | hu
    · exact isDigit_toDigits d.s u hu
    · rw [List.eq_of_mem_replicate hu]
      decide
  · rw [htext, digitsValue_append_zeros, digitsValue_toDigits]

theorem isDouble_ten : Binary64.IsDouble ((10 : ℚ) ^ (21 : ℤ)) := by
  have hsplit : (10 : ℚ) ^ (21 : ℤ) = ((5 ^ 21 : ℤ) : ℚ) * 2 ^ (21 : ℤ) := by norm_num
  have hlt : |((5 ^ 21 : ℤ) : ℚ) * 2 ^ (21 : ℤ)| < 2 ^ 1024 := by
    rw [← hsplit, abs_of_pos (zpow_pos (by norm_num) _)]
    calc (10 : ℚ) ^ (21 : ℤ) < 2 ^ 70 := by norm_num
      _ ≤ 2 ^ 1024 := pow_le_pow_right₀ one_le_two (by norm_num)
  rw [hsplit]
  exact Binary64.isDouble_mul_pow (by norm_num) (by norm_num) hlt

/-- a natural number below 10^21 is written out in digits, and what they say is rounded to it -/
theorem positiveText_digits {m : ℕ} (hm : 0 < m) (hdouble : Binary64.IsDouble (m : ℚ)) (hlt : m < 10 ^ 21) :
    ∃ v : ℕ, Binary64.nearest v = some (m : ℚ) ∧ positiveText m ≠ [] ∧ (∀ u ∈ positiveText m, isDigit u = true) ∧
      digitsValue (positiveText m) = v := by
  obtain ⟨d, hd, -, haccepts, hkn, hplace⟩ :=
    shortest_nat (fun v => Binary64.nearest v = some (m : ℚ)) hm (decide_eq_true hdouble)
  have hnearest : Binary64.nearest d.value = some (m : ℚ) := of_decide_eq_true haccepts
  have hmag : magnitude (m : ℚ) ≤ 21 := by
    have hlow := (magnitude_bounds (Nat.cast_pos.2 hm : (0 : ℚ) < m)).1
    have hcast : (m : ℚ) < 10 ^ (21 : ℤ) := by exact_mod_cast hlt
    have := (zpow_lt_zpow_iff_right₀ (by norm_num : (1 : ℚ) < 10)).1 (hlow.trans_lt hcast)
    omega
  have hn : d.n ≤ 21 := by
    rcases hplace with h | ⟨h, hvalue⟩
    · omega
    · -- 10^21 is not rounded to a smaller number
      rcases hmag.lt_or_eq with hless | heq
      · omega
      · rw [hvalue, heq, show Binary64.nearest _ = some _ from isDouble_ten] at hnearest
        have hm' : (m : ℚ) = ((10 ^ 21 : ℕ) : ℚ) := by
          rw [← Option.some.inj hnearest]
          norm_num
        have : m = 10 ^ 21 := by exact_mod_cast hm'
        omega
  have htext : positiveText m = digitsText d := by
    unfold positiveText
    rw [hd]
    rfl
  obtain ⟨v, hv, hne, hdigits, hvalue⟩ := digitsText_int hkn hn
  rw [htext]
  exact ⟨v, hv ▸ hnearest, hne, hdigits, hvalue⟩

theorem positiveText_nat {m : ℕ} (hm : 0 < m) (hdouble : Binary64.IsDouble (m : ℚ)) (hlt : m < 10 ^ 21) :
    ∃ v : ℕ, Binary64.nearest v = some (m : ℚ) ∧ parseInt (positiveText m) = some (v : ℤ) ∧
      parseInt (unit '-' :: positiveText m) = some (-(v : ℤ)) := by
  obtain ⟨v, hv, hne, hdigits, hvalue⟩ := positiveText_digits hm hdouble hlt
  have hnil : ∀ u ∈ ([] : JsString).head?, isDigit u = false := nofun
  obtain ⟨hparse, hminus⟩ := parseInt_digits hne hdigits hnil
  rw [List.append_nil, hvalue] at hparse hminus
  exact ⟨v, hv, hparse, hminus⟩

theorem numberText_pos {q : ℚ} (h : 0 < q) :
    numberText (.finite q) = positiveText q ∧ numberText (.finite (-q)) = unit '-' :: positiveText q := by
  constructor
  · simp only [numberText, if_neg h.ne', if_neg h.not_gt]
  · simp only [numberText, if_neg (neg_ne_zero.2 h.ne'), if_pos (neg_neg_of_pos h), neg_neg]

/-- **An integer is read back**: what `parseInt` finds is rounded to it. -/
theorem parseInt_numberText {n : ℤ} (hne : n ≠ 0) (hdouble : Binary64.IsDouble (n : ℚ)) (hlt : n.natAbs < 10 ^ 21) :
    ∃ v : ℤ, parseInt (numberText (.finite n)) = some v ∧ Binary64.nearest v = some (n : ℚ) := by
  obtain ⟨m, rfl | rfl⟩ := n.eq_nat_or_neg
  · rw [Int.natAbs_natCast] at hlt
    rw [Int.cast_natCast] at hdouble ⊢
    have hpos : 0 < m := by omega
    obtain ⟨v, hv, hparse, -⟩ := positiveText_nat hpos hdouble hlt
    refine ⟨v, ?_, hv⟩
    rw [(numberText_pos (Nat.cast_pos.2 hpos)).1, hparse]
  · rw [Int.natAbs_neg, Int.natAbs_natCast] at hlt
    rw [Int.cast_neg, Int.cast_natCast] at hdouble ⊢
    have hpos : 0 < m := by omega
    obtain ⟨v, hv, -, hminus⟩ := positiveText_nat hpos hdouble.of_neg hlt
    refine ⟨-v, ?_, ?_⟩
    · rw [(numberText_pos (Nat.cast_pos.2 hpos)).2, hminus]
    · rw [Int.cast_neg, Int.cast_natCast, Binary64.nearest_neg, hv]
      rfl

/-! ## Large integers -/

/-- the text of a number with more places begins with one digit alone -/
theorem digitsText_large {d : Digits} (hn : 21 < d.n) :
    ∃ u rest, digitsText d = u :: rest ∧ isDigit u = true ∧ ∀ v ∈ rest.head?, isDigit v = false := by
  obtain ⟨c, cs, hcs⟩ := List.exists_cons_of_ne_nil (utf16_ne_nil (@Nat.toDigits_ne_nil d.s 10))
  have hdigit : isDigit c = true := isDigit_toDigits d.s c (hcs ▸ List.mem_cons_self)
  have htext : digitsText d = c :: ((if d.k = 1 then [] else unit '.' :: cs) ++
      unit 'e' :: (if 0 < d.n then unit '+' else unit '-') :: utf16 (Nat.toDigits 10 (d.n - 1).natAbs)) := by
    unfold digitsText
    simp only [hcs]
    rw [if_neg (by omega), if_neg (by omega), if_neg (by omega)]
    rfl
  refine ⟨c, _, htext, hdigit, ?_⟩
  intro v hv
  by_cases hk : d.k = 1
  · rw [if_pos hk] at hv
    cases hv
    decide
  · rw [if_neg hk] at hv
    cases hv
    decide

/-- **A larger integer is not read back**: `parseInt` stops after its first digit. -/
theorem parseInt_numberText_large {n : ℤ} (hdouble : Binary64.IsDouble (n : ℚ)) (hle : 10 ^ 21 ≤ n.natAbs) :
    ∃ v : ℤ, parseInt (numberText (.finite n)) = some v ∧ v.natAbs < 10 := by
  have hpos : 0 < n.natAbs := by omega
  have hdouble' : Binary64.IsDouble (n.natAbs : ℚ) := by
    obtain ⟨m, rfl | rfl⟩ := n.eq_nat_or_neg
    · exact_mod_cast hdouble
    · rw [Int.cast_neg, Int.cast_natCast] at hdouble
      rw [Int.natAbs_neg, Int.natAbs_natCast]
      exact hdouble.of_neg
  obtain ⟨d, hd, -, -, hkn, hplace⟩ :=
    shortest_nat (fun v => Binary64.nearest v = some (n.natAbs : ℚ)) hpos (decide_eq_true hdouble')
  have hmag : 21 < magnitude (n.natAbs : ℚ) := by
    have hhigh := (magnitude_bounds (Nat.cast_pos.2 hpos : (0 : ℚ) < n.natAbs)).2
    have hcast : (10 : ℚ) ^ (21 : ℤ) ≤ n.natAbs := by exact_mod_cast hle
    exact (zpow_lt_zpow_iff_right₀ (by norm_num : (1 : ℚ) < 10)).1 (hcast.trans_lt hhigh)
  obtain ⟨u, rest, htext, hdigit, hrest⟩ := digitsText_large (by omega : 21 < d.n)
  have hpositive : positiveText n.natAbs = [u] ++ rest := by
    unfold positiveText
    rw [hd]
    exact htext
  have hvalue : digitsValue [u] < 10 := by
    have := isDigit_bounds hdigit
    simp only [digitsValue, List.foldl_cons, List.foldl_nil]
    omega
  obtain ⟨h1, h2⟩ := parseInt_digits (List.cons_ne_nil u []) (by simpa using hdigit) hrest
  have hcast : (0 : ℚ) < n.natAbs := by exact_mod_cast hpos
  obtain ⟨m, rfl | rfl⟩ := n.eq_nat_or_neg
  · rw [Int.natAbs_natCast] at hpositive hcast
    refine ⟨digitsValue [u], ?_, by omega⟩
    rw [Int.cast_natCast, (numberText_pos hcast).1, hpositive, h1]
  · rw [Int.natAbs_neg, Int.natAbs_natCast] at hpositive hcast
    refine ⟨-digitsValue [u], ?_, by omega⟩
    rw [Int.cast_neg, Int.cast_natCast, (numberText_pos hcast).2, hpositive, h2]

end ShadowsocksOhos
