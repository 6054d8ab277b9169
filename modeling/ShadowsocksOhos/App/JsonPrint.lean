/-
A printer of JSON documents: no white space, and all the digits of a number. It prints what `JSON.stringify` prints where
the strings are texts without control characters and the numbers are integers that are not too large.

- `jsonParse_print`: the machine of `JSON.parse` reads a document back, if its numbers are doubles and the keys of its
objects are distinct.
-/
import ShadowsocksOhos.App.JsonParse

namespace ShadowsocksOhos

namespace JsonPrint

open JsonParse

/-! ## The printer -/

def hexDigitLower (n : ℕ) : UInt16 := if n < 10 then fromCharCode (0x30 + n) else fromCharCode (0x57 + n)

/-- a unit in a string -/
def printUnit (u : UInt16) : JsString :=
  if u = quote ∨ u = backslash then [backslash, u]
  else if u.toNat < 0x20 then
    [backslash, unit 'u', unit '0', unit '0', hexDigitLower (u.toNat / 16), hexDigitLower (u.toNat % 16)]
  else [u]

def printString (s : JsString) : JsString := quote :: (s.flatMap printUnit ++ [quote])

def digits (n : ℕ) : JsString := utf16 (Nat.toDigits 10 n)

/-- an exponent of ten, unless it is 0 -/
def printExponent (k : ℕ) : JsString := if k = 0 then [] else js "e-" ++ digits k

/-- the denominator of a double is a power of two, which divides as many tens -/
def printNumber (q : ℚ) : JsString :=
  (if q.num < 0 then [unit '-'] else []) ++
    (digits (q.num.natAbs * 5 ^ Nat.log2 q.den) ++ printExponent (Nat.log2 q.den))

mutual

def print : JsValue → JsString
  | .null => js "null"
  | .bool true => js "true"
  | .bool false => js "false"
  | .num (.finite q) => printNumber q
  | .num (.infinite _) => js "null"
  | .str s => printString s
  | .arr [] => js "[]"
  | .arr (v :: vs) => unit '[' :: (print v ++ printItems vs)
  | .obj [] => js "\x7b\x7d"
  | .obj ((k, v) :: fields) => unit '\x7b' :: (printString k ++ unit ':' :: (print v ++ printFields fields))

/-- the items after the first -/
def printItems : List JsValue → JsString
  | [] => js "]"
  | v :: vs => unit ',' :: (print v ++ printItems vs)

/-- the fields after the first -/
def printFields : List (JsString × JsValue) → JsString
  | [] => js "\x7d"
  | (k, v) :: fields => unit ',' :: (printString k ++ unit ':' :: (print v ++ printFields fields))

end

mutual

/-- the numbers are doubles, and no object has a key twice -/
def Plain : JsValue → Prop
  | .num (.finite q) => Binary64.IsDouble q
  | .num (.infinite _) => False
  | .arr items => PlainItems items
  | .obj fields => (fields.map Prod.fst).Nodup ∧ PlainFields fields
  | _ => True

def PlainItems : List JsValue → Prop
  | [] => True
  | v :: vs => Plain v ∧ PlainItems vs

def PlainFields : List (JsString × JsValue) → Prop
  | [] => True
  | (_, v) :: fields => Plain v ∧ PlainFields fields

end

/-! ## Runs of the machine -/

def Runs (s : State) (text : JsString) (s' : State) : Prop := text.foldlM step s = some s'

theorem Runs.cons {s s' t : State} {u : UInt16} {text : JsString} (hu : step s u = some s') (h : Runs s' text t) :
    Runs s (u :: text) t := by
  unfold Runs
  rw [List.foldlM_cons, hu]
  exact h

theorem Runs.append {s s' t : State} {text rest : JsString} (h : Runs s text s') (hrest : Runs s' rest t) :
    Runs s (text ++ rest) t := by
  unfold Runs
  rw [List.foldlM_append, h]
  exact hrest

/-- a value has been read; a number ends with what follows -/
def HasRead (stack : List Frame) (v : JsValue) (s : State) : Prop :=
  s = ⟨stack, .after v⟩ ∨ ∃ units n, s = ⟨stack, .num units⟩ ∧ jsonNumber units = some n ∧ v = .num n

theorem HasRead.step {stack : List Frame} {v : JsValue} {s : State} (h : HasRead stack v s) {u : UInt16}
    (hu : inNumber u = false) : step s u = afterValue stack v u := by
  rcases h with rfl | ⟨units, n, rfl, hn, rfl⟩
  · rfl
  · simp [JsonParse.step, hu, hn]

theorem HasRead.finish {v : JsValue} {s : State} (h : HasRead [] v s) : finish s = some v := by
  rcases h with rfl | ⟨units, n, rfl, hn, rfl⟩
  · rfl
  · simp [JsonParse.finish, hn]

/-! ## Strings -/

theorem hexValue_lower {n : ℕ} (h : n < 16) : hexValue (hexDigitLower n) = some n := by
  revert n
  decide

theorem runs_unit (stack : List Frame) (isKey : Bool) (units : JsString) (u : UInt16) :
    Runs ⟨stack, .str isKey units⟩ (printUnit u) ⟨stack, .str isKey (units ++ [u])⟩ := by
  have hbackslash : step ⟨stack, .str isKey units⟩ backslash = some ⟨stack, .escape isKey units⟩ := rfl
  unfold printUnit
  split_ifs with hescaped hcontrol
  · refine Runs.cons hbackslash (Runs.cons ?_ rfl)
    rcases hescaped with rfl | rfl <;> rfl
  · -- four hexadecimal digits
    have h1 := hexValue_lower (n := u.toNat / 16) (by omega)
    have h2 := hexValue_lower (n := u.toNat % 16) (by omega)
    have hvalue : fromCharCode (16 * (u.toNat / 16) + u.toNat % 16) = u := by
      rw [Nat.div_add_mod, fromCharCode_toNat]
    have hu : step ⟨stack, .escape isKey units⟩ (unit 'u') = some ⟨stack, .hex isKey units 0 0⟩ := rfl
    have hzero : ∀ n, n < 3 →
        step ⟨stack, .hex isKey units n 0⟩ (unit '0') = some ⟨stack, .hex isKey units (n + 1) 0⟩ := by
      intro n hn
      have h0 : hexValue (unit '0') = some 0 := by decide
      simp [JsonParse.step, h0, show n ≠ 3 by omega]
    have hhigh : step ⟨stack, .hex isKey units 2 0⟩ (hexDigitLower (u.toNat / 16)) =
        some ⟨stack, .hex isKey units 3 (u.toNat / 16)⟩ := by simp [JsonParse.step, h1]
    have hlow : step ⟨stack, .hex isKey units 3 (u.toNat / 16)⟩ (hexDigitLower (u.toNat % 16)) =
        some ⟨stack, .str isKey (units ++ [u])⟩ := by simp [JsonParse.step, h2, hvalue]
    exact Runs.cons hbackslash (Runs.cons hu (Runs.cons (hzero 0 (by decide)) (Runs.cons (hzero 1 (by decide))
      (Runs.cons hhigh (Runs.cons hlow rfl)))))
  · rw [not_or] at hescaped
    refine Runs.cons ?_ rfl
    simp only [JsonParse.step, if_neg hescaped.1, if_neg hescaped.2, if_neg hcontrol]

theorem runs_units (stack : List Frame) (isKey : Bool) (units s : JsString) :
    Runs ⟨stack, .str isKey units⟩ (s.flatMap printUnit) ⟨stack, .str isKey (units ++ s)⟩ := by
  induction s generalizing units with
  | nil => rw [List.append_nil]; rfl
  | cons u s ih =>
    have h := ih (units ++ [u])
    rw [List.append_assoc, List.singleton_append] at h
    exact Runs.append (runs_unit stack isKey units u) h

theorem runs_string (stack : List Frame) (s : JsString) :
    Runs ⟨stack, .value⟩ (printString s) ⟨stack, .after (.str s)⟩ := by
  have hbegin : step ⟨stack, .value⟩ quote = some ⟨stack, .str false []⟩ := rfl
  exact Runs.cons hbegin ((runs_units stack false [] s).append (Runs.cons rfl rfl))

/-- a key, and the colon after it -/
theorem runs_key {s : State} {fields : List (JsString × JsValue)} {key : JsString} {stack : List Frame}
    (h : step s quote = some ⟨.obj fields key :: stack, .str true []⟩) (k : JsString) (rest : JsString) (s' : State)
    (hrest : Runs ⟨.obj fields k :: stack, .value⟩ rest s') :
    Runs s (printString k ++ unit ':' :: rest) s' := by
  have hend : step ⟨.obj fields key :: stack, .str true k⟩ quote = some ⟨.obj fields k :: stack, .colon⟩ := rfl
  have hcolon : step ⟨.obj fields k :: stack, .colon⟩ (unit ':') = some ⟨.obj fields k :: stack, .value⟩ := rfl
  have hstring : Runs s (printString k) ⟨.obj fields k :: stack, .colon⟩ :=
    Runs.cons h ((runs_units _ true [] k).append (Runs.cons hend rfl))
  exact hstring.append (Runs.cons hcolon hrest)

/-! ## Numbers -/

theorem digits_ne (n : ℕ) : digits n ≠ [] := utf16_ne_nil Nat.toDigits_ne_nil

theorem digits_isDigit (n : ℕ) : ∀ u ∈ digits n, isDigit u = true := isDigit_toDigits n

theorem digitsValue_digits (n : ℕ) : digitsValue (digits n) = n := digitsValue_toDigits n

/-- no leading zeros -/
theorem head_toDigits {n : ℕ} (h : n ≠ 0) : (Nat.toDigits 10 n).head? ≠ some '0' := by
  induction n using Nat.strong_induction_on with
  | h n ih =>
    by_cases hlt : n < 10
    · rw [Nat.toDigits_of_lt_base hlt]
      interval_cases n <;> first | exact absurd rfl h | decide
    · rw [Nat.toDigits_of_base_le (by decide) (by omega), List.head?_append_of_ne_nil _ Nat.toDigits_ne_nil]
      exact ih (n / 10) (by omega) (by omega)

theorem scanDecimal_digits (n k : ℕ) :
    scanDecimal (digits n ++ printExponent k) = some ⟨digits n, false, [], -k⟩ := by
  have hdigits := digits_isDigit n
  have htail : (printExponent k).takeWhile isDigit = [] ∧ (printExponent k).dropWhile isDigit = printExponent k := by
    unfold printExponent
    split_ifs
    · exact ⟨rfl, rfl⟩
    · exact ⟨List.takeWhile_cons_of_neg (by decide), List.dropWhile_cons_of_neg (by decide)⟩
  have htake : (digits n ++ printExponent k).takeWhile isDigit = digits n := by
    rw [List.takeWhile_append_of_pos hdigits, htail.1, List.append_nil]
  have hdrop : (digits n ++ printExponent k).dropWhile isDigit = printExponent k := by
    rw [List.dropWhile_append_of_pos hdigits, htail.2]
  have hfraction : scanFraction (printExponent k) = (false, [], printExponent k) := by
    unfold printExponent
    split_ifs <;> rfl
  have hexponent : scanExponent (printExponent k) = some (-k : ℤ) := by
    unfold printExponent
    split_ifs with hk
    · rw [hk]
      rfl
    · have hminus : js "e-" = [unit 'e', unit '-'] := by decide
      have hall : (digits k).all isDigit = true := List.all_eq_true.2 (digits_isDigit k)
      rw [hminus]
      simp [scanExponent, digits_ne, hall, digitsValue_digits]
  unfold scanDecimal
  rw [hdrop, hfraction, htake]
  simp only [hexponent, Option.map_some]

theorem splitMinus_digits (n k : ℕ) (negative : Bool) :
    splitMinus ((if negative then [unit '-'] else []) ++ (digits n ++ printExponent k)) =
      (negative, digits n ++ printExponent k) := by
  cases negative with
  | true => rfl
  | false =>
    obtain ⟨u, rest, hu⟩ := List.exists_cons_of_ne_nil (digits_ne n)
    have hdigit : isDigit u = true := digits_isDigit n u (hu ▸ List.mem_cons_self)
    have hminus : u ≠ unit '-' := by
      rintro rfl
      revert hdigit
      decide
    rw [hu]
    exact if_neg hminus

theorem head_digits (n : ℕ) (h : (digits n).head? = some (unit '0')) : (digits n).length = 1 := by
  obtain ⟨hmap, hdig⟩ := utf16_toDigits n
  have hzero : n = 0 := by
    by_contra hn
    refine head_toDigits hn ?_
    unfold digits at h
    rw [hmap] at h
    obtain ⟨c, cs, hcs⟩ := List.exists_cons_of_ne_nil (@Nat.toDigits_ne_nil n 10)
    rw [hcs] at h ⊢
    rw [hcs] at hdig
    have hc := Option.some.inj h
    have htoNat := congrArg UInt16.toNat hc
    rw [toNat_unit_digit (hdig c List.mem_cons_self), toNat_unit_digit (by decide)] at htoNat
    exact congrArg some (Char.ext (UInt32.toNat_inj.1 htoNat))
  rw [hzero]
  rfl

/-- **A double is read back.** -/
theorem jsonNumber_print {q : ℚ} (hq : Binary64.IsDouble q) : jsonNumber (printNumber q) = some (.finite q) := by
  obtain ⟨j, hden⟩ := hq.den
  have hlog : Nat.log2 q.den = j := by rw [hden, Nat.log2_two_pow]
  have habs : ((q.num.natAbs * 5 ^ j : ℕ) : ℚ) * 10 ^ (-j : ℤ) = |q| := by
    have hten : (10 : ℚ) = 5 * 2 := by norm_num
    have hnum : |q| = (q.num.natAbs : ℚ) / 2 ^ j := by
      rw [← Nat.cast_two, ← Nat.cast_pow, ← hden, Rat.abs_def, Rat.divInt_eq_div]
      rfl
    rw [hnum, zpow_neg, zpow_natCast, hten, mul_pow]
    push_cast
    field_simp
  have hvalue : (Decimal.mk (digits (q.num.natAbs * 5 ^ j)) false [] (-j)).value = |q| := by
    unfold Decimal.value
    rw [List.append_nil, digitsValue_digits, List.length_nil, Nat.cast_zero, sub_zero]
    exact habs
  have hsign : (if decide (q.num < 0) = true then -|q| else |q|) = q := by
    by_cases h : q.num < 0
    · rw [if_pos (decide_eq_true h), abs_of_neg (Rat.num_neg.1 h), neg_neg]
    · rw [if_neg (by simpa using h), abs_of_nonneg (Rat.num_nonneg.1 (not_lt.1 h))]
  have hsplit := splitMinus_digits (q.num.natAbs * 5 ^ j) j (decide (q.num < 0))
  simp only [decide_eq_true_eq] at hsplit
  unfold jsonNumber printNumber
  rw [hlog, hsplit]
  simp only [scanDecimal_digits, Option.bind_some, hvalue]
  rw [if_pos ⟨digits_ne _, head_digits _, nofun⟩]
  unfold toJsNumber
  rw [hsign, show Binary64.nearest q = some q from hq]

/-! ## Values -/

theorem inNumber_print (q : ℚ) : ∃ u units, printNumber q = u :: units ∧ (u = unit '-' ∨ isDigit u = true) ∧
    ∀ v ∈ units, inNumber v = true := by
  have hdigit : ∀ {u}, isDigit u = true → inNumber u = true := fun hu => by simp [inNumber, hu]
  have hexp : ∀ k, ∀ v ∈ printExponent k, inNumber v = true := by
    intro k v hv
    unfold printExponent at hv
    split_ifs at hv
    · cases hv
    · rcases List.mem_append.1 hv with hv | hv
      · exact (forall_mem_of_all (p := fun v => inNumber v = true) (by decide)) v hv
      · exact hdigit (digits_isDigit k v hv)
  obtain ⟨u, rest, hu⟩ := List.exists_cons_of_ne_nil (digits_ne (q.num.natAbs * 5 ^ Nat.log2 q.den))
  have hall : ∀ v ∈ u :: rest ++ printExponent (Nat.log2 q.den), inNumber v = true := by
    intro v hv
    rcases List.mem_append.1 hv with hv | hv
    · rw [← hu] at hv
      exact hdigit (digits_isDigit _ v hv)
    · exact hexp _ v hv
  unfold printNumber
  rw [hu]
  split_ifs
  · exact ⟨unit '-', _, rfl, Or.inl rfl, hall⟩
  · exact ⟨u, rest ++ printExponent (Nat.log2 q.den), rfl, Or.inr (digits_isDigit _ u (hu ▸ List.mem_cons_self)),
      fun v hv => hall v (List.mem_cons_of_mem u hv)⟩

theorem runs_inNumber (stack : List Frame) (units : JsString) {text : JsString} (h : ∀ u ∈ text, inNumber u = true) :
    Runs ⟨stack, .num units⟩ text ⟨stack, .num (units ++ text)⟩ := by
  induction text generalizing units with
  | nil => rw [List.append_nil]; rfl
  | cons u text ih =>
    have hrest := ih (units ++ [u]) fun v hv => h v (List.mem_cons_of_mem u hv)
    rw [List.append_assoc, List.singleton_append] at hrest
    exact Runs.cons (if_pos (h u List.mem_cons_self)) hrest

theorem isDigit_ne {u v : UInt16} (hu : isDigit u = true) (hv : isDigit v = false) : u ≠ v := by
  rintro rfl
  rw [hu] at hv
  cases hv

theorem isDigit_not_jsonSpace {u : UInt16} (h : isDigit u = true) : isJsonSpace u = false := by
  by_contra hc
  have hspace := jsonSpace_space (by simpa using hc)
  rw [isDigit_not_space h] at hspace
  cases hspace

/-- the first unit of a value is not white space, and does not close an array -/
theorem print_head (v : JsValue) : ∃ u rest, print v = u :: rest ∧ u ≠ unit ']' ∧ isJsonSpace u = false := by
  have hword : ∀ w : JsString, (w.head?.all fun u => u ≠ unit ']' && !isJsonSpace u) = true → w ≠ [] →
      ∃ u rest, w = u :: rest ∧ u ≠ unit ']' ∧ isJsonSpace u = false := by
    intro w h hne
    obtain ⟨u, rest, rfl⟩ := List.exists_cons_of_ne_nil hne
    simp only [List.head?_cons, Option.all_some, Bool.and_eq_true, decide_eq_true_eq, Bool.not_eq_true'] at h
    exact ⟨u, rest, rfl, h⟩
  unfold print
  split
  · exact hword _ (by decide) (by decide)
  · exact hword _ (by decide) (by decide)
  · exact hword _ (by decide) (by decide)
  · rename_i q
    obtain ⟨u, units, hu, hfirst, -⟩ := inNumber_print q
    refine ⟨u, units, hu, ?_⟩
    rcases hfirst with rfl | hdigit
    · decide
    · exact ⟨isDigit_ne hdigit (by decide), isDigit_not_jsonSpace hdigit⟩
  · exact hword _ (by decide) (by decide)
  · exact ⟨_, _, rfl, by decide, by decide⟩
  · exact hword _ (by decide) (by decide)
  · exact ⟨_, _, rfl, by decide, by decide⟩
  · exact hword _ (by decide) (by decide)
  · exact ⟨_, _, rfl, by decide, by decide⟩

theorem runs_number (stack : List Frame) {q : ℚ} (hq : Binary64.IsDouble q) :
    ∃ s, Runs ⟨stack, .value⟩ (printNumber q) s ∧ HasRead stack (.num (.finite q)) s := by
  obtain ⟨u, units, hu, hfirst, hrest⟩ := inNumber_print q
  refine ⟨⟨stack, .num (u :: units)⟩, ?_, Or.inr ⟨u :: units, .finite q, rfl, hu ▸ jsonNumber_print hq, rfl⟩⟩
  have hbegin : step ⟨stack, .value⟩ u = some ⟨stack, .num [u]⟩ := by
    rcases hfirst with rfl | hdigit
    · rfl
    · have hq : u ≠ quote := isDigit_ne hdigit (by decide)
      have hbrace : u ≠ unit '\x7b' := isDigit_ne hdigit (by decide)
      have hbracket : u ≠ unit '[' := isDigit_ne hdigit (by decide)
      simp [JsonParse.step, isDigit_not_jsonSpace hdigit, beginValue, hq, hbrace, hbracket, hdigit]
  rw [hu]
  exact Runs.cons hbegin (runs_inNumber stack [u] hrest)

theorem notMem_key {before fields : List (JsString × JsValue)} {k : JsString} {v : JsValue}
    (h : ((before ++ (k, v) :: fields).map Prod.fst).Nodup) : k ∉ before.map Prod.fst := by
  rw [List.map_append, List.map_cons] at h
  exact fun hk => (List.nodup_append.1 h).2.2 k hk k List.mem_cons_self rfl

/-- a first item is read like any value -/
theorem runs_first {stack : List Frame} {v : JsValue} {rest : JsString} {s : State}
    (h : Runs ⟨stack, .value⟩ (print v ++ rest) s) : Runs ⟨stack, .firstItem⟩ (print v ++ rest) s := by
  obtain ⟨u, units, hu, hbracket, hspace⟩ := print_head v
  rw [hu] at h ⊢
  have hstep : step ⟨stack, .firstItem⟩ u = step ⟨stack, .value⟩ u := by
    simp [JsonParse.step, hspace, hbracket]
  unfold Runs at h ⊢
  rw [List.cons_append, List.foldlM_cons] at h ⊢
  rw [hstep]
  exact h

mutual

/-- a value is read -/
theorem runs_print : ∀ (v : JsValue) (stack : List Frame), Plain v →
    ∃ s, Runs ⟨stack, .value⟩ (print v) s ∧ HasRead stack v s
  | .null, _, _ => ⟨_, rfl, Or.inl rfl⟩
  | .bool true, _, _ => ⟨_, rfl, Or.inl rfl⟩
  | .bool false, _, _ => ⟨_, rfl, Or.inl rfl⟩
  | .num (.finite q), stack, h => by
    unfold print
    exact runs_number stack (by unfold Plain at h; exact h)
  | .num (.infinite _), _, h => by
    unfold Plain at h
    exact absurd h id
  | .str s, stack, _ => by
    unfold print
    exact ⟨_, runs_string stack s, Or.inl rfl⟩
  | .arr [], _, _ => ⟨_, rfl, Or.inl rfl⟩
  | .arr (v :: vs), stack, h => by
    unfold Plain PlainItems at h
    obtain ⟨s, hs, hread⟩ := runs_print v (.arr [] :: stack) h.1
    have hrest := runs_items vs [] v stack s h.2 hread
    unfold print
    exact ⟨_, Runs.cons rfl (runs_first (hs.append hrest)), Or.inl rfl⟩
  | .obj [], _, _ => ⟨_, rfl, Or.inl rfl⟩
  | .obj ((k, v) :: fields), stack, h => by
    unfold Plain PlainFields at h
    obtain ⟨s, hs, hread⟩ := runs_print v (.obj [] k :: stack) h.2.1
    have hrest := runs_fields fields [] k v stack s h.2.2 h.1 hread
    unfold print
    exact ⟨_, Runs.cons rfl (runs_key rfl k _ _ (hs.append hrest)), Or.inl rfl⟩

/-- the items after one that has been read -/
theorem runs_items : ∀ (vs items : List JsValue) (v : JsValue) (stack : List Frame) (s : State), PlainItems vs →
    HasRead (.arr items :: stack) v s → Runs s (printItems vs) ⟨stack, .after (.arr (items ++ v :: vs))⟩
  | [], items, v, stack, s, _, hread => by
    have hstep : step s (unit ']') = some ⟨stack, .after (.arr (items ++ [v]))⟩ := hread.step (by decide)
    unfold printItems
    exact Runs.cons hstep rfl
  | w :: vs, items, v, stack, s, h, hread => by
    unfold PlainItems at h
    have hstep : step s (unit ',') = some ⟨.arr (items ++ [v]) :: stack, .value⟩ := hread.step (by decide)
    obtain ⟨s', hs', hread'⟩ := runs_print w (.arr (items ++ [v]) :: stack) h.1
    have hrest := runs_items vs (items ++ [v]) w stack s' h.2 hread'
    rw [List.append_assoc, List.singleton_append] at hrest
    unfold printItems
    exact Runs.cons hstep (hs'.append hrest)

/-- the fields after one that has been read -/
theorem runs_fields : ∀ (fields before : List (JsString × JsValue)) (k : JsString) (v : JsValue) (stack : List Frame)
    (s : State), PlainFields fields → ((before ++ (k, v) :: fields).map Prod.fst).Nodup →
    HasRead (.obj before k :: stack) v s → Runs s (printFields fields) ⟨stack, .after (.obj (before ++ (k, v) :: fields))⟩
  | [], before, k, v, stack, s, _, hnodup, hread => by
    have hinsert := Dict.insert_new (notMem_key hnodup) v
    have hstep : step s (unit '\x7d') = some ⟨stack, .after (.obj (Dict.insert k v before))⟩ := hread.step (by decide)
    rw [hinsert] at hstep
    unfold printFields
    exact Runs.cons hstep rfl
  | (k', v') :: fields, before, k, v, stack, s, h, hnodup, hread => by
    unfold PlainFields at h
    have hinsert := Dict.insert_new (notMem_key hnodup) v
    have hstep : step s (unit ',') = some ⟨.obj (Dict.insert k v before) [] :: stack, .key⟩ := hread.step (by decide)
    rw [hinsert] at hstep
    obtain ⟨s', hs', hread'⟩ := runs_print v' (.obj (before ++ [(k, v)]) k' :: stack) h.1
    have hnodup' : ((before ++ [(k, v)] ++ (k', v') :: fields).map Prod.fst).Nodup := by
      rwa [List.append_assoc, List.singleton_append]
    have hrest := runs_fields fields (before ++ [(k, v)]) k' v' stack s' h.2 hnodup' hread'
    rw [List.append_assoc, List.singleton_append] at hrest
    unfold printFields
    exact Runs.cons hstep (runs_key rfl k' _ _ (hs'.append hrest))

end

/-- **A document is read back.** -/
theorem jsonParse_print {v : JsValue} (h : Plain v) : jsonParse (print v) = some v := by
  obtain ⟨s, hs, hread⟩ := runs_print v [] h
  unfold jsonParse
  rw [show (print v).foldlM step ⟨[], .value⟩ = some s from hs, Option.bind_some]
  exact hread.finish

end JsonPrint

end ShadowsocksOhos
