/-
The text of a number, read back: the machine of `JSON.parse` scans every layout of `toString` to the value of its digits,
and rounding that gives the number.
- `scans_digitsText`: each layout, whole, with a point, with zeros in front or with an exponent.
- `numberOf_numberText`: every double is read back from its shortest decimal.
-/
import ShadowsocksOhos.App.JsonPrint
import ShadowsocksOhos.App.NumberText

namespace ShadowsocksOhos

open JsonParse

/-! ## Decimals -/

/-- a decimal in its parts -/
theorem scanDecimal_parts {int frac : JsString} (dot : Bool) (expText : JsString) {exp : ℤ}
    (hint : ∀ u ∈ int, isDigit u = true) (hfrac : ∀ u ∈ frac, isDigit u = true) (hdot : dot = false → frac = [])
    (hexp : scanExponent expText = some exp)
    (hhead : ∀ u ∈ expText.head?, isDigit u = false ∧ u ≠ unit '.') :
    scanDecimal (int ++ ((if dot then unit '.' :: frac else []) ++ expText)) = some ⟨int, dot, frac, exp⟩ := by
  -- neither a point nor an exponent begins with a digit
  have hstop : ∀ {digits rest : JsString}, (∀ u ∈ digits, isDigit u = true) → (∀ u ∈ rest.head?, isDigit u = false) →
      (digits ++ rest).takeWhile isDigit = digits ∧ (digits ++ rest).dropWhile isDigit = rest := by
    intro digits rest hdigits hrest
    rw [List.takeWhile_append_of_pos hdigits, List.dropWhile_append_of_pos hdigits]
    cases rest with
    | nil => exact ⟨List.append_nil _, rfl⟩
    | cons u rest =>
      have hu : ¬ isDigit u = true := by simp [hrest u rfl]
      exact ⟨by rw [List.takeWhile_cons_of_neg hu, List.append_nil], List.dropWhile_cons_of_neg hu⟩
  have hafter : ∀ u ∈ ((if dot then unit '.' :: frac else []) ++ expText).head?, isDigit u = false := by
    cases dot with
    | true =>
      rintro u ⟨⟩
      decide
    | false => exact fun u hu => (hhead u hu).1
  obtain ⟨htake, hdrop⟩ := hstop hint hafter
  have hfraction : scanFraction ((if dot then unit '.' :: frac else []) ++ expText) = (dot, frac, expText) := by
    cases dot with
    | true =>
      obtain ⟨h1, h2⟩ := hstop hfrac fun u hu => (hhead u hu).1
      simp only [if_true, List.cons_append, scanFraction, h1, h2]
    | false =>
      rw [hdot rfl]
      cases expText with
      | nil => rfl
      | cons u rest => simp [scanFraction, (hhead u rfl).2]
  unfold scanDecimal
  rw [htake, hdrop, hfraction]
  simp only [hexp, Option.map_some]

theorem scanExponent_digits (negative : Bool) (n : ℕ) :
    scanExponent (unit 'e' :: (if negative then unit '-' else unit '+') :: JsonPrint.digits n) =
      some ((if negative then -1 else 1) * (n : ℤ)) := by
  have hall : (JsonPrint.digits n).all isDigit = true := List.all_eq_true.2 (JsonPrint.digits_isDigit n)
  have hplus : unit '+' ≠ unit '-' := by decide
  cases negative <;> simp [scanExponent, hall, JsonPrint.digits_ne, JsonPrint.digitsValue_digits, hplus]

open Shortest in
/-- the digits of a decimal: as many as it has, and the first of them is not 0 -/
theorem digits_wellFormed {d : Digits} (h : d.WellFormed) :
    (JsonPrint.digits d.s).length = d.k ∧ (JsonPrint.digits d.s).head? ≠ some (unit '0') := by
  obtain ⟨hk, hlow, hhigh⟩ := h
  have hlen : (JsonPrint.digits d.s).length = (Nat.toDigits 10 d.s).length := by
    unfold JsonPrint.digits
    rw [(utf16_toDigits d.s).1, List.length_map]
  have hpos : 0 < d.s := (Nat.pow_pos (by decide)).trans_le hlow
  constructor
  · rw [hlen]
    refine le_antisymm ((Nat.length_toDigits_le_iff (by decide) hk).2 hhigh) ?_
    rcases Nat.lt_or_ge 1 d.k with hmany | hone
    · have := (Nat.length_toDigits_le_iff (b := 10) (n := d.s) (k := d.k - 1) (by decide) (by omega)).1.mt (not_lt.2 hlow)
      omega
    · exact hone.trans Nat.length_toDigits_pos
  · intro hzero
    obtain ⟨u, hu⟩ := List.length_eq_one_iff.1 (JsonPrint.head_digits d.s hzero)
    rw [hu] at hzero
    have hvalue := JsonPrint.digitsValue_digits d.s
    rw [hu, Option.some.inj hzero] at hvalue
    have : digitsValue [unit '0'] = 0 := by decide
    omega

/-- a number as a JSON text may write it -/
structure JsonDecimal (d : Decimal) : Prop where
  int : d.int ≠ []
  digits : ∀ u ∈ d.int, isDigit u = true
  leading : d.int.head? = some (unit '0') → d.int.length = 1
  frac : d.dot = true → d.frac ≠ []

/-- a text that is scanned to this value -/
def Scans (text : JsString) (value : ℚ) : Prop :=
  ∃ decimal, scanDecimal text = some decimal ∧ decimal.value = value ∧ JsonDecimal decimal

/-! ## Layouts -/

section Layouts

variable {D : JsString} {s : ℕ} (hdigits : ∀ u ∈ D, isDigit u = true) (hvalue : digitsValue D = s)
  (hhead : D.head? ≠ some (unit '0'))

include hdigits hvalue hhead

/-- zeros after the digits -/
theorem scans_zeros (hne : D ≠ []) (m : ℕ) : Scans (D ++ List.replicate m (unit '0')) (s * 10 ^ m) := by
  have hall : ∀ u ∈ D ++ List.replicate m (unit '0'), isDigit u = true := by
    intro u hu
    rcases List.mem_append.1 hu with hu | hu
    · exact hdigits u hu
    · rw [List.eq_of_mem_replicate hu]
      decide
  have hscan := scanDecimal_parts false [] hall (List.forall_mem_nil _) (fun _ => rfl) rfl nofun
  rw [if_neg Bool.false_ne_true, List.append_nil, List.append_nil] at hscan
  refine ⟨_, hscan, ?_, List.append_ne_nil_of_left_ne_nil hne _, hall, fun hzero => ?_, nofun⟩
  · simp [Decimal.value, digitsValue_append_zeros, hvalue]
  · rw [List.head?_append_of_ne_nil _ hne] at hzero
    exact absurd hzero hhead

/-- a point among the digits, and an exponent after them if there is one -/
theorem scans_point {i : ℕ} (hi : 0 < i) (hlt : i < D.length) (expText : JsString) {exp : ℤ}
    (hexp : scanExponent expText = some exp) (hstop : ∀ u ∈ expText.head?, isDigit u = false ∧ u ≠ unit '.') :
    Scans (D.take i ++ (unit '.' :: D.drop i ++ expText)) (s * 10 ^ (exp - (D.length - i : ℕ))) := by
  have hint : ∀ u ∈ D.take i, isDigit u = true := fun u hu => hdigits u (List.mem_of_mem_take hu)
  have hfrac : ∀ u ∈ D.drop i, isDigit u = true := fun u hu => hdigits u (List.mem_of_mem_drop hu)
  have hscan := scanDecimal_parts true expText hint hfrac nofun hexp hstop
  rw [if_pos rfl] at hscan
  refine ⟨_, hscan, ?_, ?_, hint, fun hzero => ?_, fun _ => ?_⟩
  · simp [Decimal.value, hvalue]
  · rw [← List.length_pos_iff, List.length_take]
    omega
  · rw [List.head?_take, if_neg hi.ne'] at hzero
    exact absurd hzero hhead
  · rw [← List.length_pos_iff, List.length_drop]
    omega

omit hhead in
/-- a point before the digits, with zeros between -/
theorem scans_fraction (hne : D ≠ []) (m : ℕ) :
    Scans (js "0." ++ (List.replicate m (unit '0') ++ D)) (s * 10 ^ (-(m + D.length : ℕ) : ℤ)) := by
  have hfrac : ∀ u ∈ List.replicate m (unit '0') ++ D, isDigit u = true := by
    intro u hu
    rcases List.mem_append.1 hu with hu | hu
    · rw [List.eq_of_mem_replicate hu]
      decide
    · exact hdigits u hu
  have hzero : ∀ u ∈ [unit '0'], isDigit u = true := forall_mem_of_all (by decide)
  have hscan := scanDecimal_parts true [] hzero hfrac nofun rfl nofun
  rw [if_pos rfl, List.append_nil] at hscan
  have hjs : js "0." = [unit '0', unit '.'] := by decide
  have hfold : ∀ n, digitsValue (unit '0' :: (List.replicate n (unit '0') ++ D)) = s := by
    intro n
    induction n with
    | zero => exact hvalue
    | succ n ih => exact ih
  refine ⟨_, (by rw [hjs]; exact hscan), ?_, List.cons_ne_nil _ _, hzero, fun _ => rfl, fun _ => ?_⟩
  · simp [Decimal.value, hfold]
  · exact List.append_ne_nil_of_right_ne_nil _ hne

/-- one digit with an exponent -/
theorem scans_single (hlen : D.length = 1) {expText : JsString} {exp : ℤ} (hexp : scanExponent expText = some exp)
    (hstop : ∀ u ∈ expText.head?, isDigit u = false ∧ u ≠ unit '.') : Scans (D ++ expText) (s * 10 ^ exp) := by
  have hscan := scanDecimal_parts false expText hdigits (List.forall_mem_nil _) (fun _ => rfl) hexp hstop
  rw [if_neg Bool.false_ne_true, List.nil_append] at hscan
  refine ⟨_, hscan, ?_, ?_, hdigits, fun hzero => absurd hzero hhead, nofun⟩
  · simp [Decimal.value, hvalue]
  · rw [← List.length_pos_iff, hlen]
    decide

end Layouts

open Shortest in
/-- **The text of a decimal** is scanned to its value. -/
theorem scans_digitsText {d : Digits} (h : d.WellFormed) : Scans (digitsText d) d.value := by
  obtain ⟨hlen, hhead⟩ := digits_wellFormed h
  have hdigits := JsonPrint.digits_isDigit d.s
  have hne := JsonPrint.digits_ne d.s
  have hvalue := JsonPrint.digitsValue_digits d.s
  have hk := h.1
  have hexp : ∀ n : ℤ, n ≠ 0 → scanExponent (unit 'e' :: (if 0 < n + 1 then unit '+' else unit '-') ::
      JsonPrint.digits n.natAbs) = some n := by
    intro n hn
    have hscan := scanExponent_digits (decide (n < 0)) n.natAbs
    rcases lt_or_gt_of_ne hn with hneg | hpos
    · rw [decide_eq_true hneg, if_pos rfl, if_pos rfl] at hscan
      rw [if_neg (by omega), hscan]
      congr 1
      omega
    · rw [decide_eq_false (by omega), if_neg Bool.false_ne_true, if_neg Bool.false_ne_true] at hscan
      rw [if_pos (by omega), hscan]
      congr 1
      omega
  have hstop : ∀ {rest : JsString}, ∀ u ∈ (unit 'e' :: rest).head?, isDigit u = false ∧ u ≠ unit '.' := by
    rintro rest u ⟨⟩
    decide
  unfold digitsText Digits.value
  change Scans (let digits := JsonPrint.digits d.s; _) _
  dsimp only
  by_cases h1 : d.k ≤ d.n ∧ d.n ≤ 21
  · rw [if_pos h1]
    have hscans := scans_zeros hdigits hvalue hhead hne (d.n - d.k).toNat
    rwa [← zpow_natCast, Int.toNat_of_nonneg (sub_nonneg.2 h1.1)] at hscans
  rw [if_neg h1]
  by_cases h2 : 0 < d.n ∧ d.n ≤ 21
  · rw [if_pos h2]
    have hscans := scans_point hdigits hvalue hhead (i := d.n.toNat) (by omega) (by omega) [] rfl nofun
    rwa [List.append_nil, hlen, show (0 : ℤ) - (d.k - d.n.toNat : ℕ) = d.n - d.k by omega] at hscans
  rw [if_neg h2]
  by_cases h3 : -6 < d.n ∧ d.n ≤ 0
  · rw [if_pos h3]
    have hscans := scans_fraction hdigits hvalue hne (-d.n).toNat
    rwa [hlen, show -((((-d.n).toNat + d.k : ℕ)) : ℤ) = d.n - d.k by omega] at hscans
  rw [if_neg h3]
  have hscan := hexp (d.n - 1) (by omega)
  rw [sub_add_cancel] at hscan
  by_cases h4 : d.k = 1
  · have hone : (JsonPrint.digits d.s).length = 1 := hlen.trans h4
    have hscans := scans_single hdigits hvalue hhead hone hscan hstop
    have htake : (JsonPrint.digits d.s).take 1 = JsonPrint.digits d.s := List.take_of_length_le hone.le
    rw [← htake] at hscans
    rw [if_pos h4, List.nil_append, h4, Nat.cast_one]
    exact hscans
  · rw [if_neg h4]
    have hscans := scans_point hdigits hvalue hhead (i := 1) (by omega) (by omega) _ hscan hstop
    rwa [hlen, show d.n - 1 - (d.k - 1 : ℕ) = d.n - d.k by omega] at hscans

open Shortest in
theorem inNumber_digitsText (d : Digits) : ∀ u ∈ digitsText d, inNumber u = true := by
  have hdigits : ∀ n, ∀ u ∈ utf16 (Nat.toDigits 10 n), inNumber u = true := by
    intro n u hu
    simp [inNumber, isDigit_toDigits n u hu]
  have hzeros : ∀ m, ∀ u ∈ List.replicate m (unit '0'), inNumber u = true := by
    intro m u hu
    rw [List.eq_of_mem_replicate hu]
    decide
  have hjs : ∀ u ∈ js "0.", inNumber u = true := forall_mem_of_all (p := fun u => inNumber u = true) (by decide)
  have htake : ∀ i, ∀ u ∈ (utf16 (Nat.toDigits 10 d.s)).take i, inNumber u = true := fun i u hu =>
    hdigits _ u (List.mem_of_mem_take hu)
  have hpoint : ∀ i, ∀ u ∈ unit '.' :: (utf16 (Nat.toDigits 10 d.s)).drop i, inNumber u = true := fun i =>
    List.forall_mem_cons.2 ⟨by decide, fun u hu => hdigits _ u (List.mem_of_mem_drop hu)⟩
  have hexponent : ∀ p : Prop, ∀ [Decidable p], ∀ n,
      ∀ u ∈ unit 'e' :: (if p then unit '+' else unit '-') :: utf16 (Nat.toDigits 10 n), inNumber u = true := by
    intro p _ n
    refine List.forall_mem_cons.2 ⟨by decide, List.forall_mem_cons.2 ⟨?_, hdigits n⟩⟩
    split_ifs <;> decide
  unfold digitsText
  dsimp only
  by_cases h1 : d.k ≤ d.n ∧ d.n ≤ 21
  · rw [if_pos h1]
    exact List.forall_mem_append.2 ⟨hdigits _, hzeros _⟩
  rw [if_neg h1]
  by_cases h2 : 0 < d.n ∧ d.n ≤ 21
  · rw [if_pos h2]
    exact List.forall_mem_append.2 ⟨htake _, hpoint _⟩
  rw [if_neg h2]
  by_cases h3 : -6 < d.n ∧ d.n ≤ 0
  · rw [if_pos h3]
    exact List.forall_mem_append.2 ⟨hjs, List.forall_mem_append.2 ⟨hzeros _, hdigits _⟩⟩
  rw [if_neg h3]
  refine List.forall_mem_append.2 ⟨htake 1, List.forall_mem_append.2 ⟨?_, hexponent _ _⟩⟩
  split_ifs
  · exact List.forall_mem_nil _
  · exact hpoint 1

open Shortest in
/-- the text of a positive double -/
theorem scans_positiveText {x : ℚ} (hx : 0 < x) (hdouble : Binary64.IsDouble x) :
    ∃ v, Binary64.nearest v = some x ∧ Scans (positiveText x) v ∧ ∀ u ∈ positiveText x, inNumber u = true := by
  obtain ⟨j, hden⟩ := hdouble.den
  obtain ⟨d, hd, hwell, haccepts⟩ := shortest_some (fun v => Binary64.nearest v = some x) hx hden (decide_eq_true hdouble)
  have htext : positiveText x = digitsText d := by
    unfold positiveText
    rw [hd]
    rfl
  rw [htext]
  exact ⟨d.value, of_decide_eq_true haccepts, scans_digitsText hwell, inNumber_digitsText d⟩

theorem Scans.head {text : JsString} {value : ℚ} (h : Scans text value) :
    ∃ u rest, text = u :: rest ∧ isDigit u = true := by
  obtain ⟨decimal, hscan, -, hjson⟩ := h
  cases text with
  | nil =>
    exfalso
    cases hscan
    exact hjson.int rfl
  | cons u rest =>
    refine ⟨u, rest, rfl, ?_⟩
    by_contra hu
    obtain ⟨exp, -, hdecimal⟩ := Option.map_eq_some_iff.1 hscan
    have hint : decimal.int = [] := by
      rw [← hdecimal]
      exact List.takeWhile_cons_of_neg hu
    exact hjson.int hint

/-! ## Numbers -/

theorem jsonNumber_scans {text : JsString} {value : ℚ} (h : Scans text value) :
    jsonNumber text = some (toJsNumber false value) ∧ jsonNumber (unit '-' :: text) = some (toJsNumber true value) := by
  obtain ⟨u, rest, htext, hu⟩ := h.head
  obtain ⟨decimal, hscan, hvalue, hjson⟩ := h
  have hminus : u ≠ unit '-' := JsonPrint.isDigit_ne hu (by decide)
  have hcond : decimal.int ≠ [] ∧ (decimal.int.head? = some (unit '0') → decimal.int.length = 1) ∧
      (decimal.dot = true → decimal.frac ≠ []) := ⟨hjson.int, hjson.leading, hjson.frac⟩
  constructor
  · have hsplit : splitMinus text = (false, text) := by
      rw [htext]
      exact if_neg hminus
    unfold jsonNumber
    simp only [hsplit, hscan, Option.bind_some, hvalue]
    rw [if_pos hcond]
  · have hsplit : splitMinus (unit '-' :: text) = (true, text) := by simp [splitMinus]
    unfold jsonNumber
    simp only [hsplit, hscan, Option.bind_some, hvalue]
    rw [if_pos hcond]

/-- the text of a number: it begins with a digit or a minus, and is made of the units of numbers -/
structure NumberOf (text : JsString) (n : JsNumber) : Prop where
  begins : ∃ u rest, text = u :: rest ∧ (u = unit '-' ∨ isDigit u = true)
  units : ∀ u ∈ text, inNumber u = true
  reads : jsonNumber text = some n

/-- **A double is read back** from its shortest decimal. -/
theorem numberOf_numberText {q : ℚ} (hq : Binary64.IsDouble q) : NumberOf (numberText (.finite q)) (.finite q) := by
  rcases lt_trichotomy q 0 with hneg | rfl | hpos
  · have hdouble : Binary64.IsDouble (-q) := by
      refine Binary64.IsDouble.of_neg ?_
      rwa [neg_neg]
    obtain ⟨v, hv, hscans, hunits⟩ := scans_positiveText (neg_pos.2 hneg) hdouble
    have htext : numberText (.finite q) = unit '-' :: positiveText (-q) := by
      have := (numberText_pos (neg_pos.2 hneg)).2
      rwa [neg_neg] at this
    rw [htext]
    refine ⟨⟨_, _, rfl, Or.inl rfl⟩, List.forall_mem_cons.2 ⟨by decide, hunits⟩, ?_⟩
    rw [(jsonNumber_scans hscans).2]
    unfold toJsNumber
    rw [if_pos rfl, Binary64.nearest_neg, hv, Option.map_some, neg_neg]
  · have hzero : numberText (.finite 0) = [unit '0'] := by
      simp only [numberText, if_true]
      decide
    rw [hzero]
    exact ⟨⟨_, _, rfl, Or.inr (by decide)⟩, List.forall_mem_singleton.2 (by decide), by decide +kernel⟩
  · obtain ⟨v, hv, hscans, hunits⟩ := scans_positiveText hpos hq
    obtain ⟨u, rest, htext, hu⟩ := hscans.head
    rw [(numberText_pos hpos).1]
    refine ⟨⟨u, rest, htext, Or.inr hu⟩, hunits, ?_⟩
    rw [(jsonNumber_scans hscans).1]
    unfold toJsNumber
    rw [if_neg Bool.false_ne_true, hv]

end ShadowsocksOhos
