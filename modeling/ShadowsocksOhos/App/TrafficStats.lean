/-
Traffic stats (`TrafficStats.ets`): the sample that one process saves and the other loads, the rates between two samples,
and the texts that the main page shows for amounts (`formatBytes`, `formatRate`).
- `load_stringify`: a sample that was saved is loaded.
- `rate_some`: between two samples whose times differ a rate is a natural number, whatever the counters do.
- `readAmount_formatBytes`: the amount that a text shows is within half a unit of its last place.
- `amounts_shown`: and a larger count is never shown as a smaller amount.
-/
import ShadowsocksOhos.App.JsonFaults
import ShadowsocksOhos.App.NumberRead

namespace ShadowsocksOhos

/-! ## Samples -/

/-- the cumulative counters of the core, and the time in milliseconds -/
structure TrafficStats where
  tx : ℚ
  rx : ℚ
  timestamp : ℚ
deriving DecidableEq

namespace TrafficStats

/-- the object that `save` gives to `JSON.stringify` -/
def toJson (stats : TrafficStats) : JsValue :=
  .obj [(js "tx", .num (.finite stats.tx)), (js "rx", .num (.finite stats.rx)),
    (js "timestamp", .num (.finite stats.timestamp))]

/-- a field that is a number -/
def number (key : JsString) (fields : List (JsString × JsValue)) : Option ℚ :=
  match Dict.get key fields with
  | some (.num (.finite q)) => some q
  | _ => none

/-- a value of the declared type -/
def ofJson : JsValue → Option TrafficStats
  | .obj fields => do
    some ⟨← number (js "tx") fields, ← number (js "rx") fields, ← number (js "timestamp") fields⟩
  | _ => none

/-- what `load` returns -/
inductive Loaded where
  | null
  | stats (stats : TrafficStats)
  /-- a document of another type, for all that `as TrafficStats` says -/
  | other (value : JsValue)

/-- `load`, of what `JsonStore.read` returns -/
def load (raw : JsString) : Loaded :=
  if raw = [] then .null
  else
    match jsonParse raw with
    | none | some .null => .null
    | some value =>
      match ofJson value with
      | some stats => .stats stats
      | none => .other value

/-- the numbers are numbers of the language -/
structure Doubles (stats : TrafficStats) : Prop where
  tx : Binary64.IsDouble stats.tx
  rx : Binary64.IsDouble stats.rx
  timestamp : Binary64.IsDouble stats.timestamp

theorem ofJson_toJson (stats : TrafficStats) : ofJson stats.toJson = some stats := by
  obtain ⟨tx, rx, timestamp⟩ := stats
  rfl

theorem plain_toJson {stats : TrafficStats} (h : stats.Doubles) : JsonPrint.Plain stats.toJson :=
  ⟨by simp only [List.map_cons, List.map_nil]; decide, h.tx, h.rx, h.timestamp, trivial⟩

/-- **A sample is loaded** from the text that was saved for it. -/
theorem load_stringify {stringify : JsValue → JsString} (h : JsonParse.Prints stringify) {stats : TrafficStats}
    (hs : stats.Doubles) : load (stringify stats.toJson) = .stats stats := by
  obtain ⟨hdoc, hparse⟩ := h _ (plain_toJson hs) rfl
  obtain ⟨first, middle, last, htext, -, -⟩ := hdoc.enclosed
  have hne : stringify stats.toJson ≠ [] := by
    rw [htext]
    exact nofun
  unfold load
  rw [if_neg hne, hparse]
  simp only [toJson]
  rw [show ofJson (.obj _) = some stats from ofJson_toJson stats]

theorem load_refused {raw : JsString} (h : jsonParse raw = none) : load raw = .null := by
  unfold load
  rw [h]
  exact ite_self _

/-! ## Rates -/

/-- `(stats.timestamp - last.timestamp) / 1000`; `none` stands for an overflow -/
def deltaSec (stats last : TrafficStats) : Option ℚ := do
  let milliseconds ← Binary64.nearest (stats.timestamp - last.timestamp)
  Binary64.nearest (milliseconds / 1000)

/-- `Math.max(0, Math.round((now - before) / deltaSec))` -/
def rate (now before deltaSec : ℚ) : Option ℚ := do
  let bytes ← Binary64.nearest (now - before)
  let quotient ← Binary64.nearest (bytes / deltaSec)
  some (max 0 ⌊quotient + 1 / 2⌋)

/-- a number that is far from an overflow -/
theorem lt_largest {q : ℚ} (h : |q| < 2 ^ 200) : |q| < 2 ^ 1023 := h.trans (pow_lt_pow_right₀ one_lt_two (by decide))

/-- samples that are a millisecond apart, or more -/
theorem deltaSec_some (stats last : TrafficStats) (hlow : 1 ≤ stats.timestamp - last.timestamp)
    (hhigh : stats.timestamp - last.timestamp < 2 ^ 60) : ∃ d, deltaSec stats last = some d ∧ 1 / 4000 ≤ d := by
  have hsmall : (2 : ℚ) ^ (-1022 : ℤ) ≤ 1 / 2000 :=
    (zpow_le_zpow_right₀ one_le_two (by decide : (-1022 : ℤ) ≤ -11)).trans (by norm_num)
  have habs : |stats.timestamp - last.timestamp| = stats.timestamp - last.timestamp := abs_of_nonneg (by linarith)
  obtain ⟨m, hm, hmle⟩ := Binary64.nearest_some (q := stats.timestamp - last.timestamp)
    (lt_largest (by rw [habs]; norm_num at hhigh ⊢; linarith))
  have hmhalf := Binary64.half_le_nearest (by linarith) hm
  have hmabs : |m / 1000| = m / 1000 := abs_of_nonneg (by linarith)
  obtain ⟨d, hd, -⟩ := Binary64.nearest_some (q := m / 1000)
    (lt_largest (by rw [hmabs]; have := le_abs_self m; norm_num at hhigh ⊢; linarith))
  have hdhalf := Binary64.half_le_nearest (by linarith) hd
  refine ⟨d, ?_, by linarith⟩
  unfold deltaSec
  rw [hm]
  exact hd

/-- **A rate is a natural number**, also where the counters have gone back. -/
theorem rate_some {now before deltaSec : ℚ} (h : |now - before| < 2 ^ 64) (hd : 1 / 4000 ≤ deltaSec) :
    ∃ n : ℕ, rate now before deltaSec = some n := by
  obtain ⟨b, hb, hble⟩ := Binary64.nearest_some (q := now - before) (lt_largest (by norm_num at h ⊢; linarith))
  have hpos : 0 < deltaSec := by linarith
  have hquotient : |b / deltaSec| < 2 ^ 200 := by
    rw [abs_div, abs_of_pos hpos, div_lt_iff₀ hpos]
    norm_num at h ⊢
    linarith
  obtain ⟨q, hq, -⟩ := Binary64.nearest_some (lt_largest hquotient)
  refine ⟨(max 0 ⌊q + 1 / 2⌋).toNat, ?_⟩
  unfold rate
  rw [hb]
  simp only [Option.bind_eq_bind, Option.bind_some, Option.pure_def, hq]
  rw [← Int.cast_natCast, Int.toNat_of_nonneg (le_max_left _ _), Int.cast_max, Int.cast_zero]

/-! ## Texts -/

/-- `Number.prototype.toFixed`, of a number that is not negative, for at least one digit -/
def toFixed (fractionDigits : ℕ) (x : ℚ) : JsString :=
  if 10 ^ 21 ≤ x then numberText (.finite x)
  else
    let digits := JsonPrint.digits ⌊x * 10 ^ fractionDigits + 1 / 2⌋₊
    let digits := List.replicate (fractionDigits + 1 - digits.length) (unit '0') ++ digits
    digits.take (digits.length - fractionDigits) ++ unit '.' :: digits.drop (digits.length - fractionDigits)

/-- a division by 1024 changes the exponent of a double only -/
def formatBytes (n : ℚ) : JsString :=
  if n < 1024 then numberText (.finite n) ++ js " B"
  else if n < 1024 * 1024 then toFixed 1 (n / 1024) ++ js " KB"
  else if n < 1024 * 1024 * 1024 then toFixed 1 (n / 1024 / 1024) ++ js " MB"
  else toFixed 2 (n / 1024 / 1024 / 1024) ++ js " GB"

def formatRate (bytesPerSecond : ℚ) : JsString := formatBytes bytesPerSecond ++ js "/s"

/-! ### Reading a text -/

/-- the unit of an amount, with the space before it -/
def unitOf (text : JsString) : Option ℚ :=
  if text = js " B" then some 1
  else if text = js " KB" then some 1024
  else if text = js " MB" then some (1024 * 1024)
  else if text = js " GB" then some (1024 * 1024 * 1024)
  else none

/-- the amount that a text tells a reader -/
def readAmount (text : JsString) : Option ℚ := do
  let decimal ← scanDecimal (text.takeWhile (· ≠ unit ' '))
  let factor ← unitOf (text.dropWhile (· ≠ unit ' '))
  some (decimal.value * factor)

theorem readAmount_append {number rest : JsString} {d : Decimal} {factor : ℚ} (hspace : ∀ u ∈ number, u ≠ unit ' ')
    (hd : scanDecimal number = some d) (hrest : rest.head? = some (unit ' ')) (hunit : unitOf rest = some factor) :
    readAmount (number ++ rest) = some (d.value * factor) := by
  obtain ⟨rest, rfl⟩ : ∃ r, rest = unit ' ' :: r := by
    cases rest with
    | nil => cases hrest
    | cons u r => exact ⟨r, by rw [Option.some.inj hrest]⟩
  have hall : ∀ u ∈ number, decide (u ≠ unit ' ') = true := fun u hu => decide_eq_true (hspace u hu)
  unfold readAmount
  rw [List.takeWhile_append_of_pos hall, List.dropWhile_append_of_pos hall, List.takeWhile_cons_of_neg (by decide),
    List.dropWhile_cons_of_neg (by decide), List.append_nil, hd, hunit]
  rfl

/-- the digits after the point count tenths, hundredths and so on -/
theorem toFixed_reads (f : ℕ) {x : ℚ} (hx : x < 10 ^ 21) : ∃ d, scanDecimal (toFixed f x) = some d ∧
    d.value = ⌊x * 10 ^ f + 1 / 2⌋₊ / 10 ^ f ∧ ∀ u ∈ toFixed f x, u ≠ unit ' ' := by
  unfold toFixed
  rw [if_neg (not_le.2 hx)]
  dsimp only
  generalize ⌊x * 10 ^ f + 1 / 2⌋₊ = k
  -- the digits, with zeros in front of them if they are too few
  generalize hD : List.replicate (f + 1 - (JsonPrint.digits k).length) (unit '0') ++ JsonPrint.digits k = D
  have hlen : f ≤ D.length := by
    rw [← hD, List.length_append, List.length_replicate]
    omega
  have hdigits : ∀ u ∈ D, isDigit u = true := by
    rw [← hD]
    intro u hu
    rcases List.mem_append.1 hu with hu | hu
    · rw [List.eq_of_mem_replicate hu]
      decide
    · exact JsonPrint.digits_isDigit k u hu
  have hvalue : digitsValue D = k := by
    have hzeros : ∀ n, (List.replicate n (unit '0')).foldl (fun n u => 10 * n + (u.toNat - 0x30)) 0 = 0 := by
      intro n
      induction n with
      | zero => rfl
      | succ n ih => exact ih
    rw [← hD]
    unfold digitsValue
    rw [List.foldl_append, hzeros]
    exact JsonPrint.digitsValue_digits k
  have hint : ∀ u ∈ D.take (D.length - f), isDigit u = true := fun u hu => hdigits u (List.mem_of_mem_take hu)
  have hfrac : ∀ u ∈ D.drop (D.length - f), isDigit u = true := fun u hu => hdigits u (List.mem_of_mem_drop hu)
  have hscan := scanDecimal_parts true [] hint hfrac nofun rfl nofun
  rw [if_pos rfl, List.append_nil] at hscan
  refine ⟨_, hscan, ?_, ?_⟩
  · unfold Decimal.value
    simp only [List.take_append_drop, hvalue, List.length_drop]
    rw [zero_sub, zpow_neg, Nat.sub_sub_self hlen, zpow_natCast, div_eq_mul_inv]
  · intro u hu
    rcases List.mem_append.1 hu with hu | hu
    · exact JsonPrint.isDigit_ne (hint u hu) (by decide)
    · rcases List.mem_cons.1 hu with rfl | hu
      · decide
      · exact JsonPrint.isDigit_ne (hfrac u hu) (by decide)

/-- a count below 2^52 is written out -/
theorem numberText_reads {n : ℕ} (h : n < 2 ^ 52) : ∃ d, scanDecimal (numberText (.finite n)) = some d ∧
    d.value = n ∧ ∀ u ∈ numberText (.finite n), u ≠ unit ' ' := by
  rcases Nat.eq_zero_or_pos n with rfl | hpos
  · exact ⟨⟨js "0", false, [], 0⟩, by decide, by norm_num [Decimal.value]; decide, forall_mem_of_all (by decide)⟩
  have hdouble : Binary64.IsDouble (n : ℚ) := Binary64.isDouble_int (n := n) (by omega)
  obtain ⟨v, hv, hne, hdigits, hvalue⟩ := positiveText_digits hpos hdouble (h.trans (by norm_num))
  -- no larger number is rounded to it
  have hvn : v = n := by
    rcases Nat.lt_or_ge v (2 ^ 53) with hlt | hge
    · rw [show Binary64.nearest v = some (v : ℚ) from Binary64.isDouble_int (n := v) (by omega)] at hv
      exact_mod_cast Option.some.inj hv
    · have hlarge := Binary64.nearest_large (n := v) (by omega) hv
      rw [abs_of_nonneg (Nat.cast_nonneg n)] at hlarge
      have : 2 ^ 52 ≤ n := by exact_mod_cast hlarge
      omega
  rw [(numberText_pos (Nat.cast_pos.2 hpos)).1]
  refine ⟨⟨positiveText n, false, [], 0⟩, ?_, ?_, fun u hu => JsonPrint.isDigit_ne (hdigits u hu) (by decide)⟩
  · unfold scanDecimal
    rw [List.takeWhile_eq_self_iff.2 hdigits, List.dropWhile_eq_nil_iff.2 hdigits]
    rfl
  · simp [Decimal.value, hvalue, hvn]

/-! ### Amounts -/

/-- rounded to `f` decimals of a unit -/
def rounded (f : ℕ) (factor n : ℚ) : ℚ := ⌊n / factor * 10 ^ f + 1 / 2⌋₊ / 10 ^ f * factor

/-- the amount that is shown for a count -/
def shownAmount (n : ℚ) : ℚ :=
  if n < 1024 then n
  else if n < 1024 * 1024 then rounded 1 1024 n
  else if n < 1024 * 1024 * 1024 then rounded 1 (1024 * 1024) n
  else rounded 2 (1024 * 1024 * 1024) n

/-- **A text tells the amount.** -/
theorem readAmount_formatBytes {n : ℕ} (h : n < 2 ^ 64) : readAmount (formatBytes n) = some (shownAmount n) := by
  have hlt : (n : ℚ) < 10 ^ 21 := by exact_mod_cast h.trans (by norm_num)
  have hn : (0 : ℚ) ≤ n := Nat.cast_nonneg n
  have hB : unitOf (js " B") = some 1 := by decide
  have hKB : unitOf (js " KB") = some 1024 := by decide
  have hMB : unitOf (js " MB") = some (1024 * 1024) := by decide +kernel
  have hGB : unitOf (js " GB") = some (1024 * 1024 * 1024) := by decide +kernel
  have hdiv2 : (n : ℚ) / 1024 / 1024 = n / (1024 * 1024) := by ring
  have hdiv3 : (n : ℚ) / 1024 / 1024 / 1024 = n / (1024 * 1024 * 1024) := by ring
  unfold formatBytes shownAmount
  rw [hdiv3, hdiv2]
  split_ifs with h1 h2 h3
  · have hlt : n < 2 ^ 52 := by
      have : n < 1024 := by exact_mod_cast h1
      omega
    obtain ⟨d, hd, hvalue, hspace⟩ := numberText_reads hlt
    rw [readAmount_append hspace hd (by decide) hB, hvalue, mul_one]
  · obtain ⟨d, hd, hvalue, hspace⟩ := toFixed_reads 1 (x := n / 1024) (by linarith)
    rw [readAmount_append hspace hd (by decide) hKB, hvalue]
    rfl
  · obtain ⟨d, hd, hvalue, hspace⟩ := toFixed_reads 1 (x := n / (1024 * 1024)) (by linarith)
    rw [readAmount_append hspace hd (by decide) hMB, hvalue]
    rfl
  · obtain ⟨d, hd, hvalue, hspace⟩ := toFixed_reads 2 (x := n / (1024 * 1024 * 1024)) (by linarith)
    rw [readAmount_append hspace hd (by decide) hGB, hvalue]
    rfl

section Rounded

variable {f : ℕ} {factor n : ℚ}

theorem rounded_near (hf : 0 < factor) (hn : 0 ≤ n) : |rounded f factor n - n| ≤ factor / (2 * 10 ^ f) := by
  have hten : (0 : ℚ) < 10 ^ f := by positivity
  have hq : 0 ≤ n / factor * 10 ^ f := by positivity
  have hlow := Nat.lt_floor_add_one (n / factor * 10 ^ f + 1 / 2)
  have hhigh := Nat.floor_le (show 0 ≤ n / factor * 10 ^ f + 1 / 2 by linarith)
  have hsplit : rounded f factor n - n =
      (⌊n / factor * 10 ^ f + 1 / 2⌋₊ - n / factor * 10 ^ f) * (factor / 10 ^ f) := by
    unfold rounded
    field_simp
  have hstep : 0 < factor / 10 ^ f := by positivity
  rw [hsplit, abs_mul, abs_of_pos hstep]
  calc |(⌊n / factor * 10 ^ f + 1 / 2⌋₊ : ℚ) - n / factor * 10 ^ f| * (factor / 10 ^ f)
      ≤ 1 / 2 * (factor / 10 ^ f) := by
        refine mul_le_mul_of_nonneg_right ?_ hstep.le
        rw [abs_le]
        constructor <;> linarith
    _ = factor / (2 * 10 ^ f) := by ring

theorem rounded_mono (hf : 0 < factor) {m : ℚ} (h : n ≤ m) : rounded f factor n ≤ rounded f factor m := by
  unfold rounded
  gcongr

/-- a multiple of the unit is shown as it is -/
theorem rounded_mul (hf : 0 < factor) (c : ℕ) : rounded f factor (c * factor) = c * factor := by
  have hfloor : ⌊(c : ℚ) * factor / factor * 10 ^ f + 1 / 2⌋₊ = c * 10 ^ f := by
    rw [mul_div_cancel_right₀ _ hf.ne', Nat.floor_eq_iff (by positivity)]
    push_cast
    constructor <;> linarith
  unfold rounded
  rw [hfloor]
  push_cast
  rw [mul_div_cancel_right₀ _ (by positivity)]

end Rounded

/-- **Half a unit of the last place**: a twentieth of the count at most. -/
theorem shownAmount_near {n : ℚ} (hn : 0 ≤ n) : |shownAmount n - n| ≤ n / 20 := by
  unfold shownAmount
  split_ifs with h1 h2 h3
  · rw [sub_self, abs_zero]
    positivity
  · refine (rounded_near (by norm_num) hn).trans ?_
    linarith
  · refine (rounded_near (by norm_num) hn).trans ?_
    linarith
  · refine (rounded_near (by norm_num) hn).trans ?_
    linarith

/-- between a unit and the next one -/
theorem rounded_between (f : ℕ) {factor : ℚ} (hf : 0 < factor) (n : ℚ) :
    (factor ≤ n → factor ≤ rounded f factor n) ∧ (n ≤ 1024 * factor → rounded f factor n ≤ 1024 * factor) := by
  have hone := rounded_mul (f := f) hf 1
  have hmany := rounded_mul (f := f) hf 1024
  rw [Nat.cast_one, one_mul] at hone
  rw [Nat.cast_ofNat] at hmany
  exact ⟨fun h => hone.ge.trans (rounded_mono hf h), fun h => (rounded_mono hf h).trans hmany.le⟩

/-- what is shown stays on the side of a unit that the count is on -/
theorem shownAmount_side {T : ℚ} (hT : T = 1024 ∨ T = 1024 * 1024 ∨ T = 1024 * 1024 * 1024) (x : ℚ) :
    (x < T → shownAmount x ≤ T) ∧ (T ≤ x → T ≤ shownAmount x) := by
  obtain ⟨hk, hk'⟩ := rounded_between 1 (show (0 : ℚ) < 1024 by norm_num) x
  obtain ⟨hM, hM'⟩ := rounded_between 1 (show (0 : ℚ) < 1024 * 1024 by norm_num) x
  obtain ⟨hG, -⟩ := rounded_between 2 (show (0 : ℚ) < 1024 * 1024 * 1024 by norm_num) x
  unfold shownAmount
  generalize rounded 1 1024 x = kilo at hk hk' ⊢
  generalize rounded 1 (1024 * 1024) x = mega at hM hM' ⊢
  generalize rounded 2 (1024 * 1024 * 1024) x = giga at hG ⊢
  split_ifs with h1 h2 h3
  · constructor <;> intro <;> linarith
  · have := hk (not_lt.1 h1)
    have := hk' h2.le
    rcases hT with rfl | rfl | rfl <;> constructor <;> intro <;> linarith
  · have := hM (not_lt.1 h2)
    have := hM' (by linarith)
    rcases hT with rfl | rfl | rfl <;> constructor <;> intro <;> linarith
  · have := hG (not_lt.1 h3)
    rcases hT with rfl | rfl | rfl <;> constructor <;> intro <;> linarith

/-- **A larger count is not shown as a smaller amount**, also where the unit changes. -/
theorem shownAmount_mono {n m : ℚ} (h : n ≤ m) : shownAmount n ≤ shownAmount m := by
  -- a unit between the two counts is between what is shown
  have hbetween : ∀ T : ℚ, (T = 1024 ∨ T = 1024 * 1024 ∨ T = 1024 * 1024 * 1024) → n < T → T ≤ m →
      shownAmount n ≤ shownAmount m :=
    fun T hT hn hm => ((shownAmount_side hT n).1 hn).trans ((shownAmount_side hT m).2 hm)
  by_cases h1 : n < 1024 ∧ 1024 ≤ m
  · exact hbetween 1024 (Or.inl rfl) h1.1 h1.2
  by_cases h2 : n < 1024 * 1024 ∧ 1024 * 1024 ≤ m
  · exact hbetween (1024 * 1024) (Or.inr (Or.inl rfl)) h2.1 h2.2
  by_cases h3 : n < 1024 * 1024 * 1024 ∧ 1024 * 1024 * 1024 ≤ m
  · exact hbetween (1024 * 1024 * 1024) (Or.inr (Or.inr rfl)) h3.1 h3.2
  -- otherwise the same unit is used for both
  have hsame : ∀ T : ℚ, ¬(n < T ∧ T ≤ m) → (n < T ↔ m < T) :=
    fun T hT => ⟨fun hn => not_le.1 fun hm => hT ⟨hn, hm⟩, fun hm => h.trans_lt hm⟩
  unfold shownAmount
  simp only [hsame _ h1, hsame _ h2, hsame _ h3]
  split_ifs
  · exact h
  all_goals exact rounded_mono (by norm_num) h

/-- **Amounts are shown as they are**, up to rounding: the text for a count says the count within a twentieth, below 1024
exactly, and the text for a larger count never says a smaller amount. -/
theorem amounts_shown (n m : ℕ) (h : n ≤ m) (hm : m < 2 ^ 64) : ∃ a b, readAmount (formatBytes n) = some a ∧
    readAmount (formatBytes m) = some b ∧ a ≤ b ∧ |a - n| ≤ n / 20 ∧ (n < 1024 → a = n) := by
  refine ⟨shownAmount n, shownAmount m, readAmount_formatBytes (h.trans_lt hm), readAmount_formatBytes hm,
    shownAmount_mono (Nat.cast_le.2 h), shownAmount_near (Nat.cast_nonneg n), fun hlt => ?_⟩
  have hcast : (n : ℚ) < 1024 := by exact_mod_cast hlt
  exact if_pos hcast

/-- the last count of a unit and the first one of the next are shown as the same amount -/
theorem amounts_shown_edge : formatBytes 1048575 = js "1024.0 KB" ∧ formatBytes 1048576 = js "1.0 MB" ∧
    ∃ a b, readAmount (formatBytes (1048575 : ℕ)) = some a ∧ readAmount (formatBytes (1048576 : ℕ)) = some b ∧ a ≤ b ∧
      |a - (1048575 : ℕ)| ≤ (1048575 : ℕ) / 20 ∧ (1048575 < 1024 → a = (1048575 : ℕ)) :=
  ⟨by decide +kernel, by decide +kernel, amounts_shown 1048575 1048576 (by decide) (by decide)⟩

end TrafficStats

end ShadowsocksOhos
