/-
Strings of the ArkTS side: sequences of UTF-16 code units, with the methods that the source calls on them. A method that
returns an index or -1 returns an `Option` here; `substring(i)` is `drop i` and `substring(0, i)` is `take i`.

`utf16` writes a text (a sequence of Unicode scalar values) as such a string.
-/
import Mathlib.Data.List.DropRight
import Mathlib.Tactic

namespace ShadowsocksOhos

abbrev JsString := List UInt16

/-- a property of the entries of a fixed list, by evaluation along the list -/
theorem forall_mem_of_all {α : Type*} {p : α → Prop} [DecidablePred p] {l : List α} (h : l.all fun a => decide (p a)) :
    ∀ a ∈ l, p a := by
  simpa using h

/-! ## Code units -/

/-- `String.fromCharCode`: the low sixteen bits -/
def fromCharCode (n : ℕ) : UInt16 := UInt16.ofNat n

/-- the code units of a code point: one, or a surrogate pair -/
def codeUnits (codePoint : ℕ) : JsString :=
  if codePoint ≤ 0xffff then [fromCharCode codePoint]
  else
    let v := codePoint - 0x10000
    [fromCharCode (0xd800 + (v >>> 10)), fromCharCode (0xdc00 + (v &&& 0x3ff))]

def utf16 (s : List Char) : JsString := s.flatMap fun c => codeUnits c.toNat

/-- a character of the basic plane -/
def unit (c : Char) : UInt16 := fromCharCode c.toNat

/-- a string literal of the source -/
def js (s : String) : JsString := utf16 s.toList

theorem toNat_fromCharCode {n : ℕ} (h : n ≤ 0xffff) : (fromCharCode n).toNat = n := by
  unfold fromCharCode
  rw [UInt16.toNat_ofNat']
  omega

theorem fromCharCode_toNat (u : UInt16) : fromCharCode u.toNat = u := UInt16.ofNat_toNat

@[simp] theorem utf16_nil : utf16 [] = [] := rfl

@[simp] theorem utf16_append (s t : List Char) : utf16 (s ++ t) = utf16 s ++ utf16 t := List.flatMap_append

theorem utf16_cons (c : Char) (s : List Char) : utf16 (c :: s) = codeUnits c.toNat ++ utf16 s := List.flatMap_cons

theorem codeUnits_ne_nil (p : ℕ) : codeUnits p ≠ [] := by
  unfold codeUnits
  split_ifs <;> exact List.cons_ne_nil _ _

theorem utf16_ne_nil {s : List Char} (h : s ≠ []) : utf16 s ≠ [] := by
  cases s with
  | nil => exact absurd rfl h
  | cons c s =>
    rw [utf16_cons]
    exact List.append_ne_nil_of_left_ne_nil (codeUnits_ne_nil _) _

/-- in a text of the basic plane each character is a unit -/
theorem utf16_eq_map {s : List Char} (h : ∀ c ∈ s, c.toNat ≤ 0xffff) : utf16 s = s.map unit := by
  induction s with
  | nil => rfl
  | cons c s ih =>
    rw [utf16_cons, ih fun d hd => h d (List.mem_cons_of_mem _ hd), List.map_cons]
    unfold codeUnits unit
    rw [if_pos (h c List.mem_cons_self)]
    rfl

/-- a unit below the surrogates is only made by the character with that number -/
theorem mem_codeUnits {p : ℕ} (hp : p < 0x110000) {u : UInt16} (hu : u ∈ codeUnits p) (hlt : u.toNat < 0xd800) :
    p = u.toNat := by
  unfold codeUnits at hu
  split_ifs at hu with h
  · rw [List.mem_singleton] at hu
    rw [hu, toNat_fromCharCode h]
  · -- both units of a pair are surrogates
    have h1 : (p - 0x10000) >>> 10 < 0x400 := by rw [Nat.shiftRight_eq_div_pow]; omega
    have h2 : (p - 0x10000) &&& 0x3ff ≤ 0x3ff := Nat.and_le_right
    simp only [List.mem_cons, List.not_mem_nil, or_false] at hu
    rcases hu with rfl | rfl <;> rw [toNat_fromCharCode (by omega)] at hlt <;> omega

theorem char_toNat_lt (c : Char) : c.toNat < 0x110000 := by
  have h : c.toNat.isValidChar := c.valid
  unfold Nat.isValidChar at h
  omega

theorem mem_utf16 {s : List Char} {c : Char} (hc : c.toNat < 0xd800) : unit c ∈ utf16 s ↔ c ∈ s := by
  have hcn : (unit c).toNat = c.toNat := toNat_fromCharCode (by omega)
  constructor
  · intro h
    obtain ⟨d, hd, hu⟩ := List.mem_flatMap.1 h
    have hdc : d.toNat = c.toNat := (mem_codeUnits (char_toNat_lt d) hu (by omega)).trans hcn
    have : d = c := Char.ext (UInt32.toNat_inj.1 hdc)
    rwa [← this]
  · intro h
    refine List.mem_flatMap.2 ⟨c, h, ?_⟩
    unfold codeUnits
    rw [if_pos (by omega)]
    exact List.mem_singleton.2 rfl

/-! ## indexOf and lastIndexOf -/

def indexOf (c : UInt16) (s : JsString) : Option ℕ := s.idxOf? c

def lastIndexOf (c : UInt16) (s : JsString) : Option ℕ := (s.reverse.idxOf? c).map fun i => s.length - 1 - i

theorem indexOf_none {c : UInt16} {s : JsString} (h : c ∉ s) : indexOf c s = none := List.idxOf?_eq_none_iff.2 h

theorem indexOf_append {c : UInt16} {s : JsString} (h : c ∉ s) (t : JsString) :
    indexOf c (s ++ c :: t) = some s.length := by
  induction s with
  | nil => simp [indexOf, List.idxOf?_cons]
  | cons u s ih =>
    obtain ⟨hu, hs⟩ := not_or.1 (mt List.mem_cons.2 h)
    have ih' : List.idxOf? c (s ++ c :: t) = some s.length := ih hs
    have hne : (u == c) = false := beq_false_of_ne (Ne.symm hu)
    simp [indexOf, List.idxOf?_cons, ih', hne]

theorem lastIndexOf_none {c : UInt16} {s : JsString} (h : c ∉ s) : lastIndexOf c s = none := by
  unfold lastIndexOf
  rw [List.idxOf?_eq_none_iff.2 (by rwa [List.mem_reverse])]
  rfl

theorem lastIndexOf_append {c : UInt16} {t : JsString} (h : c ∉ t) (s : JsString) :
    lastIndexOf c (s ++ c :: t) = some s.length := by
  have hr : indexOf c (t.reverse ++ c :: s.reverse) = some t.reverse.length :=
    indexOf_append (by rwa [List.mem_reverse]) _
  unfold indexOf at hr
  unfold lastIndexOf
  rw [List.reverse_append, List.reverse_cons, List.append_assoc, List.singleton_append, hr]
  simp

theorem take_append_cons (s : JsString) (c : UInt16) (t : JsString) : (s ++ c :: t).take s.length = s :=
  List.take_left' rfl

theorem drop_append_cons (s : JsString) (c : UInt16) (t : JsString) : (s ++ c :: t).drop (s.length + 1) = t := by
  rw [List.drop_append, List.drop_eq_nil_of_le (by omega)]
  simp

/-! ## trim -/

/-- white space and line ends of the language -/
def isJsSpace (u : UInt16) : Bool :=
  let n := u.toNat
  (9 ≤ n && n ≤ 13) || n = 0x20 || n = 0xa0 || n = 0x1680 || (0x2000 ≤ n && n ≤ 0x200a) || n = 0x2028 || n = 0x2029 ||
    n = 0x202f || n = 0x205f || n = 0x3000 || n = 0xfeff

def jsTrim (s : JsString) : JsString := (s.dropWhile isJsSpace).rdropWhile isJsSpace

theorem jsTrim_eq {u v : UInt16} {s : JsString} (hu : isJsSpace u = false) (hv : isJsSpace v = false) :
    jsTrim (u :: s ++ [v]) = u :: s ++ [v] := by
  unfold jsTrim
  rw [List.cons_append, List.dropWhile_cons_of_neg (by simp [hu]), ← List.cons_append,
    List.rdropWhile_concat_neg _ _ _ (by simp [hv])]

/-- white space in front is trimmed -/
theorem jsTrim_space_append {a : JsString} (ha : ∀ u ∈ a, isJsSpace u = true) (s : JsString) : jsTrim (a ++ s) = jsTrim s := by
  unfold jsTrim
  rw [List.dropWhile_append_of_pos ha]

/-- white space at the end is trimmed -/
theorem jsTrim_append_space {b : JsString} (hb : ∀ u ∈ b, isJsSpace u = true) (s : JsString) : jsTrim (s ++ b) = jsTrim s := by
  induction b using List.reverseRecOn with
  | nil => rw [List.append_nil]
  | append_singleton b u ih =>
    have hu : isJsSpace u = true := hb u (by simp)
    rw [← ih fun v hv => hb v (List.mem_append_left _ hv), ← List.append_assoc]
    generalize s ++ b = t
    unfold jsTrim
    rw [List.dropWhile_append]
    split_ifs with h
    · rw [List.dropWhile_cons_of_pos hu, List.isEmpty_iff.1 h]
      rfl
    · rw [List.rdropWhile_concat_pos _ _ _ hu]

theorem jsTrim_parts (s : JsString) :
    s = s.takeWhile isJsSpace ++ jsTrim s ++ (s.dropWhile isJsSpace).rtakeWhile isJsSpace := by
  unfold jsTrim
  rw [List.append_assoc, List.rdropWhile_append_rtakeWhile, List.takeWhile_append_dropWhile]

/-- what is trimmed is white space -/
theorem jsTrim_split (s : JsString) : ∃ a b, s = a ++ jsTrim s ++ b ∧ (∀ u ∈ a, isJsSpace u = true) ∧
    ∀ u ∈ b, isJsSpace u = true :=
  ⟨_, _, jsTrim_parts s, fun _ hu => List.mem_takeWhile_imp hu, fun _ hu => List.mem_rtakeWhile_imp hu⟩

theorem jsTrim_jsTrim (s : JsString) : jsTrim (jsTrim s) = jsTrim s := by
  obtain ⟨a, b, hs, ha, hb⟩ := jsTrim_split s
  conv_rhs => rw [hs, jsTrim_append_space hb, jsTrim_space_append ha]

/-- what is left after trimming does not begin with white space -/
theorem jsTrim_head {s rest : JsString} {u : UInt16} (h : jsTrim s = u :: rest) : isJsSpace u = false := by
  by_contra hu
  have hall : ∀ v ∈ [u], isJsSpace v = true := fun v hv => by rw [List.mem_singleton.1 hv]; simpa using hu
  have htrim : jsTrim (u :: rest) = jsTrim rest := jsTrim_space_append hall rest
  rw [← h, jsTrim_jsTrim] at htrim
  have hlen := congrArg List.length (jsTrim_parts rest)
  rw [List.length_append, List.length_append, ← htrim, h, List.length_cons] at hlen
  omega

/-- a text without white space is found in what is left after trimming -/
theorem infix_jsTrim {l : JsString} (hne : l ≠ []) (hl : ∀ u ∈ l, isJsSpace u = false) {s : JsString} (h : l <:+: s) :
    l <:+: jsTrim s := by
  have hfront : ∀ {l : JsString}, l ≠ [] → (∀ u ∈ l, isJsSpace u = false) → ∀ {a : JsString} (s : JsString),
      (∀ u ∈ a, isJsSpace u = true) → l <:+: a ++ s → l <:+: s := by
    intro l hne hl a s ha h
    induction a with
    | nil => exact h
    | cons u a ih =>
      rcases List.infix_cons_iff.1 h with hp | hi
      · obtain ⟨v, l', rfl⟩ := List.exists_cons_of_ne_nil hne
        have hv : v = u := (List.cons_prefix_cons.1 hp).1
        have := hl v List.mem_cons_self
        rw [hv, ha u List.mem_cons_self] at this
        cases this
      · exact ih (fun v hv => ha v (List.mem_cons_of_mem _ hv)) hi
  obtain ⟨a, b, hs, ha, hb⟩ := jsTrim_split s
  rw [hs, List.append_assoc] at h
  have hback := hfront hne hl _ ha h
  -- the end, from behind
  rw [← List.reverse_infix, List.reverse_append] at hback
  have := hfront (mt List.reverse_eq_nil_iff.1 hne) (fun u hu => hl u (List.mem_reverse.1 hu)) _
    (fun u hu => hb u (List.mem_reverse.1 hu)) hback
  exact List.reverse_infix.1 this

/-! ## Numbers -/

def isDigit (u : UInt16) : Bool := 0x30 ≤ u.toNat && u.toNat ≤ 0x39

def digitsValue (digits : JsString) : ℕ := digits.foldl (fun n u => 10 * n + (u.toNat - 0x30)) 0

/-- `Number.parseInt(s, 10)`; `none` is NaN -/
def parseInt (s : JsString) : Option ℤ :=
  let s := s.dropWhile isJsSpace
  let (sign, s) : ℤ × JsString :=
    match s with
    | [] => (1, [])
    | u :: rest => if u = unit '-' then (-1, rest) else if u = unit '+' then (1, rest) else (1, u :: rest)
  let digits := s.takeWhile isDigit
  if digits = [] then none else some (sign * digitsValue digits)

theorem toNat_unit {c : Char} (h : c.toNat ≤ 0xffff) : (unit c).toNat = c.toNat := toNat_fromCharCode h

theorem digit_bounds {c : Char} (h : c.isDigit = true) : 0x30 ≤ c.toNat ∧ c.toNat ≤ 0x39 := by
  simp only [Char.isDigit, ge_iff_le, Bool.and_eq_true, decide_eq_true_eq, UInt32.le_iff_toNat_le] at h
  exact h

theorem toNat_unit_digit {c : Char} (h : c.isDigit = true) : (unit c).toNat = c.toNat :=
  toNat_unit ((digit_bounds h).2.trans (by decide))

theorem isDigit_unit {c : Char} (h : c.isDigit = true) : isDigit (unit c) = true := by
  unfold isDigit
  rw [toNat_unit_digit h]
  simpa using digit_bounds h

theorem isDigit_bounds {u : UInt16} (h : isDigit u = true) : 0x30 ≤ u.toNat ∧ u.toNat ≤ 0x39 := by
  simpa [isDigit] using h

theorem isDigit_not_space {u : UInt16} (h : isDigit u = true) : isJsSpace u = false := by
  have hb := isDigit_bounds h
  unfold isJsSpace
  simp
  omega

theorem digitsValue_map {s : List Char} (h : ∀ c ∈ s, c.isDigit = true) :
    digitsValue (s.map unit) = Nat.ofDigitChars 10 s 0 := by
  have aux : ∀ n, (s.map unit).foldl (fun n u => 10 * n + (u.toNat - 0x30)) n = Nat.ofDigitChars 10 s n := by
    induction s with
    | nil => exact fun n => Nat.ofDigitChars_nil.symm
    | cons c s ih =>
      intro n
      rw [List.map_cons, List.foldl_cons, ih (fun d hd => h d (List.mem_cons_of_mem _ hd)), Nat.ofDigitChars_cons,
        toNat_unit_digit (h c List.mem_cons_self)]
      rfl
  exact aux 0

/-- without white space or a sign in front, the digits are taken -/
theorem parseInt_digit {u : UInt16} (h : isDigit u = true) (s : JsString) :
    parseInt (u :: s) = some (digitsValue ((u :: s).takeWhile isDigit) : ℤ) := by
  have hb := isDigit_bounds h
  have hminus : u ≠ unit '-' := by rintro rfl; revert hb; decide
  have hplus : u ≠ unit '+' := by rintro rfl; revert hb; decide
  unfold parseInt
  rw [List.dropWhile_cons_of_neg (by simp [isDigit_not_space h])]
  simp only [if_neg hminus, if_neg hplus, List.takeWhile_cons_of_pos h]
  rw [if_neg (List.cons_ne_nil _ _), one_mul]

/-- a number in decimal digits is read back, whatever follows that is not a digit -/
theorem parseInt_toDigits (n : ℕ) {rest : JsString} (h : ∀ u ∈ rest.head?, isDigit u = false) :
    parseInt (utf16 (Nat.toDigits 10 n) ++ rest) = some (n : ℤ) := by
  have hdig : ∀ c ∈ Nat.toDigits 10 n, c.isDigit = true :=
    fun c hc => Nat.isDigit_of_mem_toDigits (by decide) (by decide) hc
  have htake : ((Nat.toDigits 10 n).map unit ++ rest).takeWhile isDigit = (Nat.toDigits 10 n).map unit := by
    have hrest : rest.takeWhile isDigit = [] := by
      cases rest with
      | nil => rfl
      | cons u rest => exact List.takeWhile_cons_of_neg (by simp [h u rfl])
    rw [List.takeWhile_append_of_pos, hrest, List.append_nil]
    intro u hu
    obtain ⟨c, hc, rfl⟩ := List.mem_map.1 hu
    exact isDigit_unit (hdig c hc)
  rw [utf16_eq_map fun c hc => (digit_bounds (hdig c hc)).2.trans (by decide)]
  obtain ⟨c, cs, hcs⟩ := List.exists_cons_of_ne_nil (@Nat.toDigits_ne_nil n 10)
  have hparse := parseInt_digit (isDigit_unit (hdig c (by rw [hcs]; exact List.mem_cons_self))) (cs.map unit ++ rest)
  rw [← List.cons_append, ← List.map_cons, ← hcs] at hparse
  rw [hparse, htake, digitsValue_map hdig, Nat.ofDigitChars_ten_toDigits]

theorem utf16_toDigits (n : ℕ) : utf16 (Nat.toDigits 10 n) = (Nat.toDigits 10 n).map unit ∧
    ∀ c ∈ Nat.toDigits 10 n, c.isDigit = true := by
  have hdig : ∀ c ∈ Nat.toDigits 10 n, c.isDigit = true :=
    fun c hc => Nat.isDigit_of_mem_toDigits (by decide) (by decide) hc
  exact ⟨utf16_eq_map fun c hc => (digit_bounds (hdig c hc)).2.trans (by decide), hdig⟩

theorem isDigit_toDigits (n : ℕ) : ∀ u ∈ utf16 (Nat.toDigits 10 n), isDigit u = true := by
  obtain ⟨hmap, hdig⟩ := utf16_toDigits n
  rw [hmap]
  intro u hu
  obtain ⟨c, hc, rfl⟩ := List.mem_map.1 hu
  exact isDigit_unit (hdig c hc)

theorem digitsValue_toDigits (n : ℕ) : digitsValue (utf16 (Nat.toDigits 10 n)) = n := by
  obtain ⟨hmap, hdig⟩ := utf16_toDigits n
  rw [hmap, digitsValue_map hdig, Nat.ofDigitChars_ten_toDigits]

end ShadowsocksOhos
