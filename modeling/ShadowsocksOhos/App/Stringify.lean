/-
`JSON.stringify` as the language defines it, of values that have no methods of their own: the short escapes of strings, with
an escape for an unpaired surrogate too, and the shortest decimals of numbers.
- `prints_stringify`: arrays and objects are read back, whatever strings and doubles are in them.
- `clean_stringify`: the text has no control character and no unpaired surrogate.
-/
import ShadowsocksOhos.App.JsonCut
import ShadowsocksOhos.App.NumberRead

namespace ShadowsocksOhos

namespace Stringify

open JsonParse JsonPrint

/-! ## The printer -/

/-- what stands after the backslash of a short escape -/
def shortEscape (u : UInt16) : Option UInt16 :=
  if u = quote ∨ u = backslash then some u
  else if u = 8 then some (unit 'b')
  else if u = 9 then some (unit 't')
  else if u = 10 then some (unit 'n')
  else if u = 12 then some (unit 'f')
  else if u = 13 then some (unit 'r')
  else none

def unicodeEscape (u : UInt16) : JsString :=
  [backslash, unit 'u', hexDigitLower (u.toNat / 16 / 16 / 16), hexDigitLower (u.toNat / 16 / 16 % 16),
    hexDigitLower (u.toNat / 16 % 16), hexDigitLower (u.toNat % 16)]

/-- a unit that is no half of a surrogate pair -/
def quoteUnit (u : UInt16) : JsString :=
  match shortEscape u with
  | some e => [backslash, e]
  | none => if u.toNat < 0x20 ∨ isHigh u = true ∨ isLow u = true then unicodeEscape u else [u]

def quoteUnits : JsString → JsString
  | [] => []
  | [u] => quoteUnit u
  | hi :: lo :: rest =>
    if isHigh hi && isLow lo then hi :: lo :: quoteUnits rest else quoteUnit hi ++ quoteUnits (lo :: rest)

/-- `QuoteJSONString` -/
def quoteString (s : JsString) : JsString := quote :: (quoteUnits s ++ [quote])

mutual

def stringify : JsValue → JsString
  | .null => js "null"
  | .bool true => js "true"
  | .bool false => js "false"
  | .num (.finite q) => numberText (.finite q)
  | .num (.infinite _) => js "null"
  | .str s => quoteString s
  | .arr [] => js "[]"
  | .arr (v :: vs) => unit '[' :: (stringify v ++ stringifyItems vs)
  | .obj [] => js "\x7b\x7d"
  | .obj ((k, v) :: fields) => unit '\x7b' :: (quoteString k ++ unit ':' :: (stringify v ++ stringifyFields fields))

/-- the items after the first -/
def stringifyItems : List JsValue → JsString
  | [] => js "]"
  | v :: vs => unit ',' :: (stringify v ++ stringifyItems vs)

/-- the fields after the first -/
def stringifyFields : List (JsString × JsValue) → JsString
  | [] => js "\x7d"
  | (k, v) :: fields => unit ',' :: (quoteString k ++ unit ':' :: (stringify v ++ stringifyFields fields))

end

example : stringify (.obj [(js "a", .num (.finite (1 / 4))), (js "b", .str [10, 0xd800, 65])]) =
    js "\x7b\"a\":0.25,\"b\":\"\\n\\ud800A\"\x7d" := by decide +kernel

/-! ## Strings -/

theorem escaped_short {u e : UInt16} (h : shortEscape u = some e) : escaped e = some u ∧ e ≠ unit 'u' := by
  unfold shortEscape at h
  split_ifs at h with h1 h2 h3 h4 h5 h6 <;> cases h
  · rcases h1 with rfl | rfl <;> decide
  all_goals
    subst_vars
    decide

theorem runs_unicodeEscape (stack : List Frame) (isKey : Bool) (units : JsString) (u : UInt16) :
    Runs ⟨stack, .str isKey units⟩ (unicodeEscape u) ⟨stack, .str isKey (units ++ [u])⟩ := by
  have hlt := u.toNat_lt
  have h1 := hexValue_lower (n := u.toNat / 16 / 16 / 16) (by omega)
  have h2 := hexValue_lower (n := u.toNat / 16 / 16 % 16) (by omega)
  have h3 := hexValue_lower (n := u.toNat / 16 % 16) (by omega)
  have h4 := hexValue_lower (n := u.toNat % 16) (by omega)
  have hvalue : fromCharCode (16 * (16 * (16 * (u.toNat / 16 / 16 / 16) + u.toNat / 16 / 16 % 16) + u.toNat / 16 % 16) +
      u.toNat % 16) = u := by
    rw [Nat.div_add_mod, Nat.div_add_mod, Nat.div_add_mod, fromCharCode_toNat]
  have hbackslash : step ⟨stack, .str isKey units⟩ backslash = some ⟨stack, .escape isKey units⟩ := rfl
  have hu : step ⟨stack, .escape isKey units⟩ (unit 'u') = some ⟨stack, .hex isKey units 0 0⟩ := rfl
  unfold unicodeEscape
  refine Runs.cons hbackslash (Runs.cons hu ?_)
  simp [Runs, JsonParse.step, h1, h2, h3, h4, hvalue]

theorem runs_plain (stack : List Frame) (isKey : Bool) (units : JsString) {u : UInt16} (hq : u ≠ quote)
    (hb : u ≠ backslash) (hu : ¬ u.toNat < 0x20) :
    step ⟨stack, .str isKey units⟩ u = some ⟨stack, .str isKey (units ++ [u])⟩ := by
  simp only [JsonParse.step, if_neg hq, if_neg hb, if_neg hu]

theorem runs_quoteUnit (stack : List Frame) (isKey : Bool) (units : JsString) (u : UInt16) :
    Runs ⟨stack, .str isKey units⟩ (quoteUnit u) ⟨stack, .str isKey (units ++ [u])⟩ := by
  unfold quoteUnit
  split
  · rename_i e he
    obtain ⟨hescaped, hu⟩ := escaped_short he
    have hbackslash : step ⟨stack, .str isKey units⟩ backslash = some ⟨stack, .escape isKey units⟩ := rfl
    refine Runs.cons hbackslash (Runs.cons ?_ rfl)
    simp [JsonParse.step, hu, hescaped]
  · rename_i hnone
    split_ifs with hescape
    · exact runs_unicodeEscape stack isKey units u
    · have hne : u ≠ quote ∧ u ≠ backslash := by
        rw [← not_or]
        intro h
        rw [shortEscape, if_pos h] at hnone
        cases hnone
      exact Runs.cons (runs_plain stack isKey units hne.1 hne.2 (fun h => hescape (Or.inl h))) rfl

theorem surrogate_plain {u : UInt16} (h : isHigh u = true ∨ isLow u = true) :
    u ≠ quote ∧ u ≠ backslash ∧ ¬ u.toNat < 0x20 := by
  have hlow : 0xd800 ≤ u.toNat := by
    simp only [isHigh, isLow, Bool.and_eq_true, decide_eq_true_eq] at h
    omega
  have hq : quote.toNat = 34 := by decide
  have hb : backslash.toNat = 92 := by decide
  refine ⟨?_, ?_, by omega⟩ <;> rintro rfl <;> omega

/-- **A string is read back**, unit by unit. -/
theorem runs_quoteUnits (stack : List Frame) (isKey : Bool) (units s : JsString) :
    Runs ⟨stack, .str isKey units⟩ (quoteUnits s) ⟨stack, .str isKey (units ++ s)⟩ := by
  induction s using quoteUnits.induct generalizing units with
  | case1 =>
    rw [List.append_nil]
    rfl
  | case2 u => exact runs_quoteUnit stack isKey units u
  | case3 hi lo rest hpair ih =>
    rw [quoteUnits, if_pos hpair]
    rw [Bool.and_eq_true] at hpair
    obtain ⟨h1, h2, h3⟩ := surrogate_plain (Or.inl hpair.1)
    obtain ⟨h4, h5, h6⟩ := surrogate_plain (Or.inr hpair.2)
    have h := ih (units ++ [hi] ++ [lo])
    rw [List.append_assoc _ [lo], List.append_assoc units [hi] ([lo] ++ rest)] at h
    exact Runs.cons (runs_plain stack isKey units h1 h2 h3) (Runs.cons (runs_plain stack isKey _ h4 h5 h6) h)
  | case4 hi lo rest hpair ih =>
    rw [quoteUnits, if_neg hpair]
    have h := ih (units ++ [hi])
    rw [List.append_assoc, List.singleton_append] at h
    exact Runs.append (runs_quoteUnit stack isKey units hi) h

theorem runs_quoteString (stack : List Frame) (s : JsString) :
    Runs ⟨stack, .value⟩ (quoteString s) ⟨stack, .after (.str s)⟩ := by
  have hbegin : step ⟨stack, .value⟩ quote = some ⟨stack, .str false []⟩ := rfl
  exact Runs.cons hbegin ((runs_quoteUnits stack false [] s).append (Runs.cons rfl rfl))

/-- a key, and the colon after it -/
theorem runs_quotedKey {s : State} {fields : List (JsString × JsValue)} {key : JsString} {stack : List Frame}
    (h : step s quote = some ⟨.obj fields key :: stack, .str true []⟩) (k : JsString) {rest : JsString} {s' : State}
    (hrest : Runs ⟨.obj fields k :: stack, .value⟩ rest s') :
    Runs s (quoteString k ++ unit ':' :: rest) s' := by
  have hend : step ⟨.obj fields key :: stack, .str true k⟩ quote = some ⟨.obj fields k :: stack, .colon⟩ := rfl
  have hcolon : step ⟨.obj fields k :: stack, .colon⟩ (unit ':') = some ⟨.obj fields k :: stack, .value⟩ := rfl
  have hstring : Runs s (quoteString k) ⟨.obj fields k :: stack, .colon⟩ :=
    Runs.cons h ((runs_quoteUnits _ true [] k).append (Runs.cons hend rfl))
  exact hstring.append (Runs.cons hcolon hrest)

/-! ## Values -/

/-- a text that is read as a value, and is no white space and no end of an array -/
structure Reads (text : JsString) (v : JsValue) : Prop where
  begins : ∃ u rest, text = u :: rest ∧ u ≠ unit ']' ∧ isJsonSpace u = false
  runs : ∀ stack, ∃ s, Runs ⟨stack, .value⟩ text s ∧ HasRead stack v s

theorem reads_number {text : JsString} {n : JsNumber} (h : NumberOf text n) : Reads text (.num n) := by
  obtain ⟨u, rest, rfl, hu⟩ := h.begins
  constructor
  · refine ⟨u, rest, rfl, ?_⟩
    rcases hu with rfl | hdigit
    · decide
    · exact ⟨isDigit_ne hdigit (by decide), isDigit_not_jsonSpace hdigit⟩
  · intro stack
    have hbegin : step ⟨stack, .value⟩ u = some ⟨stack, .num [u]⟩ := by
      rcases hu with rfl | hdigit
      · rfl
      · have hq : u ≠ quote := isDigit_ne hdigit (by decide)
        have hbrace : u ≠ unit '\x7b' := isDigit_ne hdigit (by decide)
        have hbracket : u ≠ unit '[' := isDigit_ne hdigit (by decide)
        simp [JsonParse.step, isDigit_not_jsonSpace hdigit, beginValue, hq, hbrace, hbracket, hdigit]
    exact ⟨⟨stack, .num (u :: rest)⟩,
      Runs.cons hbegin (runs_inNumber stack [u] fun w hw => h.units w (List.mem_cons_of_mem u hw)),
      Or.inr ⟨u :: rest, n, rfl, h.reads, rfl⟩⟩

/-- a first item is read like any value -/
theorem Reads.first {text : JsString} {v : JsValue} (h : Reads text v) {stack : List Frame} {rest : JsString} {s : State}
    (hrun : Runs ⟨stack, .value⟩ (text ++ rest) s) : Runs ⟨stack, .firstItem⟩ (text ++ rest) s := by
  obtain ⟨u, units, rfl, hbracket, hspace⟩ := h.begins
  have hstep : step ⟨stack, .firstItem⟩ u = step ⟨stack, .value⟩ u := by simp [JsonParse.step, hspace, hbracket]
  unfold Runs at hrun ⊢
  rw [List.cons_append, List.foldlM_cons] at hrun ⊢
  rw [hstep]
  exact hrun

/-- one more item -/
theorem Reads.item {text : JsString} {w : JsValue} (h : Reads text w) {stack : List Frame} {items : List JsValue}
    {v : JsValue} {s : State} (hread : HasRead (.arr items :: stack) v s) :
    ∃ s', Runs s (unit ',' :: text) s' ∧ HasRead (.arr (items ++ [v]) :: stack) w s' := by
  have hstep : step s (unit ',') = some ⟨.arr (items ++ [v]) :: stack, .value⟩ := hread.step (by decide)
  obtain ⟨s', hs', hread'⟩ := h.runs (.arr (items ++ [v]) :: stack)
  exact ⟨s', Runs.cons hstep hs', hread'⟩

mutual

/-- **A value is read back.** -/
theorem reads_stringify : ∀ v, Plain v → Reads (stringify v) v
  | .null, _ => ⟨⟨_, _, rfl, by decide, by decide⟩, fun _ => ⟨_, rfl, Or.inl rfl⟩⟩
  | .bool true, _ => ⟨⟨_, _, rfl, by decide, by decide⟩, fun _ => ⟨_, rfl, Or.inl rfl⟩⟩
  | .bool false, _ => ⟨⟨_, _, rfl, by decide, by decide⟩, fun _ => ⟨_, rfl, Or.inl rfl⟩⟩
  | .num (.finite q), h => by
    unfold Plain at h
    unfold stringify
    exact reads_number (numberOf_numberText h)
  | .num (.infinite _), h => by
    unfold Plain at h
    exact absurd h id
  | .str s, _ => by
    unfold stringify
    exact ⟨⟨_, _, rfl, by decide, by decide⟩, fun stack => ⟨_, runs_quoteString stack s, Or.inl rfl⟩⟩
  | .arr [], _ => ⟨⟨_, _, rfl, by decide, by decide⟩, fun _ => ⟨_, rfl, Or.inl rfl⟩⟩
  | .arr (v :: vs), h => by
    unfold Plain PlainItems at h
    have hv := reads_stringify v h.1
    unfold stringify
    refine ⟨⟨_, _, rfl, by decide, by decide⟩, fun stack => ?_⟩
    obtain ⟨s, hs, hread⟩ := hv.runs (.arr [] :: stack)
    exact ⟨_, Runs.cons rfl (hv.first (hs.append (reads_items vs h.2 [] v stack s hread))), Or.inl rfl⟩
  | .obj [], _ => ⟨⟨_, _, rfl, by decide, by decide⟩, fun _ => ⟨_, rfl, Or.inl rfl⟩⟩
  | .obj ((k, v) :: fields), h => by
    unfold Plain PlainFields at h
    have hv := reads_stringify v h.2.1
    unfold stringify
    refine ⟨⟨_, _, rfl, by decide, by decide⟩, fun stack => ?_⟩
    obtain ⟨s, hs, hread⟩ := hv.runs (.obj [] k :: stack)
    exact ⟨_, Runs.cons rfl (runs_quotedKey rfl k (hs.append (reads_fields fields h.2.2 [] k v stack s h.1 hread))),
      Or.inl rfl⟩

/-- the items after one that has been read -/
theorem reads_items : ∀ vs, PlainItems vs → ∀ items v stack s, HasRead (.arr items :: stack) v s →
    Runs s (stringifyItems vs) ⟨stack, .after (.arr (items ++ v :: vs))⟩
  | [], _, items, v, stack, s, hread => by
    have hstep : step s (unit ']') = some ⟨stack, .after (.arr (items ++ [v]))⟩ := hread.step (by decide)
    unfold stringifyItems
    exact Runs.cons hstep rfl
  | w :: vs, h, items, v, stack, s, hread => by
    unfold PlainItems at h
    obtain ⟨s', hs', hread'⟩ := (reads_stringify w h.1).item hread
    have hrest := reads_items vs h.2 (items ++ [v]) w stack s' hread'
    rw [List.append_assoc, List.singleton_append] at hrest
    unfold stringifyItems
    exact hs'.append hrest

/-- the fields after one that has been read -/
theorem reads_fields : ∀ fields, PlainFields fields → ∀ before k v stack s,
    ((before ++ (k, v) :: fields).map Prod.fst).Nodup → HasRead (.obj before k :: stack) v s →
    Runs s (stringifyFields fields) ⟨stack, .after (.obj (before ++ (k, v) :: fields))⟩
  | [], _, before, k, v, stack, s, hnodup, hread => by
    have hstep : step s (unit '\x7d') = some ⟨stack, .after (.obj (Dict.insert k v before))⟩ := hread.step (by decide)
    rw [Dict.insert_new (notMem_key hnodup) v] at hstep
    unfold stringifyFields
    exact Runs.cons hstep rfl
  | (k', v') :: fields, h, before, k, v, stack, s, hnodup, hread => by
    unfold PlainFields at h
    have hstep : step s (unit ',') = some ⟨.obj (Dict.insert k v before) [] :: stack, .key⟩ := hread.step (by decide)
    rw [Dict.insert_new (notMem_key hnodup) v] at hstep
    obtain ⟨s', hs', hread'⟩ := (reads_stringify v' h.1).runs (.obj (before ++ [(k, v)]) k' :: stack)
    have hnodup' : ((before ++ [(k, v)] ++ (k', v') :: fields).map Prod.fst).Nodup := by
      rwa [List.append_assoc, List.singleton_append]
    have hrest := reads_fields fields h.2 (before ++ [(k, v)]) k' v' stack s' hnodup' hread'
    rw [List.append_assoc, List.singleton_append] at hrest
    unfold stringifyFields
    exact Runs.cons hstep (runs_quotedKey rfl k' (hs'.append hrest))

end

theorem jsonParse_stringify {v : JsValue} (h : Plain v) : jsonParse (stringify v) = some v := by
  obtain ⟨s, hs, hread⟩ := (reads_stringify v h).runs []
  unfold jsonParse
  rw [show (stringify v).foldlM step ⟨[], .value⟩ = some s from hs]
  exact hread.finish

theorem stringifyItems_end (vs : List JsValue) : (stringifyItems vs).getLast? = some (unit ']') := by
  induction vs with
  | nil => rfl
  | cons v vs ih =>
    rw [stringifyItems, ← List.cons_append, List.getLast?_append, ih]
    rfl

theorem stringifyFields_end (fields : List (JsString × JsValue)) :
    (stringifyFields fields).getLast? = some (unit '\x7d') := by
  induction fields with
  | nil => rfl
  | cons field fields ih =>
    rw [stringifyFields, ← List.cons_append, ← List.cons_append, ← List.append_assoc, List.getLast?_append, ih]
    rfl

/-- **`JSON.stringify` makes documents** of arrays and objects. -/
theorem prints_stringify : Prints stringify := by
  intro v h hv
  refine ⟨⟨⟨v, jsonParse_stringify h⟩, ?_⟩, jsonParse_stringify h⟩
  rcases v with _ | _ | _ | _ | items | fields <;> try cases hv
  · rcases items with _ | ⟨v, vs⟩
    · exact ⟨unit '[', [], unit ']', rfl, Or.inl rfl, rfl⟩
    · obtain ⟨init, hinit⟩ := List.getLast?_eq_some_iff.1 (stringifyItems_end vs)
      refine ⟨unit '[', stringify v ++ init, unit ']', ?_, Or.inl rfl, rfl⟩
      rw [stringify, hinit, ← List.append_assoc]
      rfl
  · rcases fields with _ | ⟨⟨k, v⟩, fields⟩
    · exact ⟨unit '\x7b', [], unit '\x7d', rfl, Or.inr rfl, rfl⟩
    · obtain ⟨init, hinit⟩ := List.getLast?_eq_some_iff.1 (stringifyFields_end fields)
      refine ⟨unit '\x7b', quoteString k ++ unit ':' :: (stringify v ++ init), unit '\x7d', ?_, Or.inr rfl, rfl⟩
      rw [stringify, hinit]
      simp only [List.cons_append, List.append_assoc]

/-! ## Clean texts -/

/-- no unpaired surrogate, and no control character -/
structure Clean (text : JsString) : Prop where
  pairs : paired text = true
  printable : ∀ u ∈ text, 0x20 ≤ u.toNat

theorem paired_append {s t : JsString} (hs : paired s = true) (ht : paired t = true) : paired (s ++ t) = true := by
  induction s using paired.induct with
  | case1 => exact ht
  | case2 u =>
    rw [paired] at hs
    cases t with
    | nil => exact hs
    | cons v t =>
      rw [Bool.and_eq_true, Bool.not_eq_true', Bool.not_eq_true'] at hs
      simp [paired, hs, ht]
  | case3 hi lo rest hpair ih =>
    rw [paired, if_pos hpair] at hs
    simp only [List.cons_append, paired, if_pos hpair]
    exact ih hs
  | case4 hi lo rest hpair ih =>
    rw [paired, if_neg hpair, Bool.and_eq_true] at hs
    rw [List.cons_append, List.cons_append, paired, if_neg hpair, Bool.and_eq_true]
    exact ⟨hs.1, ih hs.2⟩

theorem Clean.append {s t : JsString} (hs : Clean s) (ht : Clean t) : Clean (s ++ t) :=
  ⟨paired_append hs.pairs ht.pairs, List.forall_mem_append.2 ⟨hs.printable, ht.printable⟩⟩

theorem clean_unit {u : UInt16} (hlow : 0x20 ≤ u.toNat) (hhigh : isHigh u = false) (hlow' : isLow u = false) : Clean [u] :=
  ⟨by simp [paired, hhigh, hlow'], List.forall_mem_singleton.2 hlow⟩

theorem Clean.cons {u : UInt16} {s : JsString} (hu : 0x20 ≤ u.toNat ∧ u.toNat < 0xd800) (hs : Clean s) : Clean (u :: s) := by
  have hhigh : isHigh u = false := by
    simp only [isHigh, Bool.and_eq_false_iff, decide_eq_false_iff_not]
    omega
  have hlow : isLow u = false := by
    simp only [isLow, Bool.and_eq_false_iff, decide_eq_false_iff_not]
    omega
  exact (clean_unit hu.1 hhigh hlow).append hs

theorem clean_nil : Clean [] := ⟨rfl, List.forall_mem_nil _⟩

theorem clean_plain {s : JsString} (h : ∀ u ∈ s, 0x20 ≤ u.toNat ∧ u.toNat < 0xd800) : Clean s := by
  induction s with
  | nil => exact clean_nil
  | cons u s ih =>
    rw [List.forall_mem_cons] at h
    exact (ih h.2).cons h.1

theorem clean_fixed {s : JsString} (h : s.all fun u => decide (0x20 ≤ u.toNat ∧ u.toNat < 0xd800)) : Clean s :=
  clean_plain (forall_mem_of_all h)

theorem plain_hexDigitLower {n : ℕ} (h : n < 16) : 0x20 ≤ (hexDigitLower n).toNat ∧ (hexDigitLower n).toNat < 0xd800 := by
  revert n
  decide

theorem clean_unicodeEscape (u : UInt16) : Clean (unicodeEscape u) := by
  have hlt := u.toNat_lt
  refine clean_plain ?_
  simp only [unicodeEscape, List.forall_mem_cons]
  exact ⟨by decide, by decide, plain_hexDigitLower (by omega), plain_hexDigitLower (by omega),
    plain_hexDigitLower (by omega), plain_hexDigitLower (by omega), List.forall_mem_nil _⟩

theorem clean_quoteUnit (u : UInt16) : Clean (quoteUnit u) := by
  unfold quoteUnit
  split
  · rename_i e he
    refine Clean.cons (by decide) (Clean.cons ?_ clean_nil)
    unfold shortEscape at he
    split_ifs at he with h1 <;> cases he
    · rcases h1 with rfl | rfl <;> decide
    all_goals decide
  · split_ifs with hescape
    · exact clean_unicodeEscape u
    · simp only [not_or, not_lt, Bool.not_eq_true] at hescape
      exact clean_unit hescape.1 hescape.2.1 hescape.2.2

theorem clean_quoteUnits (s : JsString) : Clean (quoteUnits s) := by
  induction s using quoteUnits.induct with
  | case1 => exact clean_nil
  | case2 u => exact clean_quoteUnit u
  | case3 hi lo rest hpair ih =>
    have hsplit := Bool.and_eq_true_iff.1 hpair
    have hhi := (surrogate_plain (Or.inl hsplit.1)).2.2
    have hlo := (surrogate_plain (Or.inr hsplit.2)).2.2
    rw [quoteUnits, if_pos hpair]
    refine ⟨?_, List.forall_mem_cons.2 ⟨not_lt.1 hhi, List.forall_mem_cons.2 ⟨not_lt.1 hlo, ih.printable⟩⟩⟩
    rw [paired, if_pos hpair]
    exact ih.pairs
  | case4 hi lo rest hpair ih =>
    rw [quoteUnits, if_neg hpair]
    exact (clean_quoteUnit hi).append ih

theorem clean_quoteString (s : JsString) : Clean (quoteString s) :=
  ((clean_quoteUnits s).append (Clean.cons (by decide) clean_nil)).cons (by decide)

theorem plain_inNumber {u : UInt16} (h : inNumber u = true) : 0x20 ≤ u.toNat ∧ u.toNat < 0xd800 := by
  simp only [inNumber, isDigit, Bool.or_eq_true, Bool.and_eq_true, decide_eq_true_eq] at h
  rcases h with ((((h | rfl) | rfl) | rfl) | rfl) | rfl
  · omega
  all_goals decide

theorem clean_positiveText (q : ℚ) : Clean (positiveText q) := by
  unfold positiveText
  cases Shortest.shortest (fun v => Binary64.nearest v = some q) q with
  | none => exact clean_nil
  | some d => exact clean_plain fun u hu => plain_inNumber (inNumber_digitsText d u hu)

theorem clean_numberText (q : ℚ) : Clean (numberText (.finite q)) := by
  unfold numberText
  dsimp only
  split_ifs
  · exact clean_fixed (by decide)
  · exact (clean_positiveText (-q)).cons (by decide)
  · exact clean_positiveText q

mutual

/-- **What is printed is clean**, whatever the strings hold. -/
theorem clean_stringify : ∀ v, Clean (stringify v)
  | .null => clean_fixed (by decide)
  | .bool true => clean_fixed (by decide)
  | .bool false => clean_fixed (by decide)
  | .num (.finite q) => by
    unfold stringify
    exact clean_numberText q
  | .num (.infinite _) => by
    unfold stringify
    exact clean_fixed (by decide)
  | .str s => by
    unfold stringify
    exact clean_quoteString s
  | .arr [] => clean_fixed (by decide)
  | .arr (v :: vs) => by
    unfold stringify
    exact ((clean_stringify v).append (clean_items vs)).cons (by decide)
  | .obj [] => clean_fixed (by decide)
  | .obj ((k, v) :: fields) => by
    unfold stringify
    exact ((clean_quoteString k).append (((clean_stringify v).append (clean_fields fields)).cons (by decide))).cons
      (by decide)

theorem clean_items : ∀ vs, Clean (stringifyItems vs)
  | [] => clean_fixed (by decide)
  | v :: vs => by
    unfold stringifyItems
    exact ((clean_stringify v).append (clean_items vs)).cons (by decide)

theorem clean_fields : ∀ fields, Clean (stringifyFields fields)
  | [] => clean_fixed (by decide)
  | (k, v) :: fields => by
    unfold stringifyFields
    exact ((clean_quoteString k).append (((clean_stringify v).append (clean_fields fields)).cons (by decide))).cons
      (by decide)

end

end Stringify

end ShadowsocksOhos
