/-
JSON documents that are cut off. A document that is an array or an object is complete only with its last unit, so no part
of it that is cut off anywhere is a document, whatever is left after it in place of the rest: nothing, zero bytes, or the
character that the zero bytes make of one that was cut in two.
- `cut_refused`: `JSON.parse` throws on every such text.
- `Prints`: `JSON.stringify` makes such documents of arrays and objects.
- `decode_filled`: what the decoder makes of bytes that were cut off and filled up with zero bytes.
-/
import ShadowsocksOhos.App.JsonPrint
import ShadowsocksOhos.App.JsonWrite

namespace ShadowsocksOhos

namespace JsonParse

/-! ## Open arrays and objects -/

def isCloser (u : UInt16) : Bool := u = unit ']' || u = unit '\x7d'

/-- a value has been read, and nothing is open -/
def State.Closed (s : State) : Prop := s.stack = [] ∧ ∃ v, s.scan = .after v

theorem afterValue_open {stack : List Frame} (h : stack ≠ []) {v : JsValue} {u : UInt16} {s : State}
    (hs : afterValue stack v u = some s) : s.stack ≠ [] ∨ isCloser u = true ∧ s.Closed := by
  rcases stack with _ | ⟨items | ⟨fields, key⟩, stack⟩ <;> simp only [afterValue] at hs
  · exact absurd rfl h
  · split_ifs at hs with _ _ hu <;> cases hs
    · exact Or.inl h
    · exact Or.inl (List.cons_ne_nil _ _)
    · cases stack with
      | nil => exact Or.inr ⟨by rw [hu]; rfl, rfl, _, rfl⟩
      | cons frame stack => exact Or.inl (List.cons_ne_nil _ _)
  · split_ifs at hs with _ _ hu <;> cases hs
    · exact Or.inl h
    · exact Or.inl (List.cons_ne_nil _ _)
    · cases stack with
      | nil => exact Or.inr ⟨by rw [hu]; rfl, rfl, _, rfl⟩
      | cons frame stack => exact Or.inl (List.cons_ne_nil _ _)

theorem beginValue_open {stack : List Frame} (h : stack ≠ []) {u : UInt16} {s : State}
    (hs : beginValue stack u = some s) : s.stack ≠ [] := by
  unfold beginValue at hs
  split_ifs at hs <;> cases hs <;> first | exact h | exact List.cons_ne_nil _ _

/-- **Step lemma.** Only a closing bracket or brace leaves nothing open, and then a value has been read. -/
theorem step_open {s s' : State} {u : UInt16} (h : s.stack ≠ []) (hs : step s u = some s') :
    s'.stack ≠ [] ∨ isCloser u = true ∧ s'.Closed := by
  obtain ⟨stack, scan⟩ := s
  have hstay : ∀ {scan' : Scan}, some (⟨stack, scan'⟩ : State) = some s' → s'.stack ≠ [] := by
    intro scan' hsome
    cases hsome
    exact h
  cases scan with
  | value =>
    simp only [step] at hs
    split_ifs at hs
    · exact Or.inl (hstay hs)
    · exact Or.inl (beginValue_open h hs)
  | firstItem =>
    simp only [step] at hs
    split_ifs at hs with _ hu
    · exact Or.inl (hstay hs)
    · rcases stack with _ | ⟨items | ⟨fields, key⟩, _ | ⟨frame, stack⟩⟩ <;> cases hs
      · exact Or.inr ⟨by rw [hu]; rfl, rfl, _, rfl⟩
      · exact Or.inl (List.cons_ne_nil _ _)
    · exact Or.inl (beginValue_open h hs)
  | firstKey =>
    simp only [step] at hs
    split_ifs at hs with _ hu
    · exact Or.inl (hstay hs)
    · rcases stack with _ | ⟨items | ⟨fields, key⟩, _ | ⟨frame, stack⟩⟩ <;> cases hs
      · exact Or.inr ⟨by rw [hu]; rfl, rfl, _, rfl⟩
      · exact Or.inl (List.cons_ne_nil _ _)
    · exact Or.inl (hstay hs)
  | key | colon =>
    simp only [step] at hs
    split_ifs at hs <;> exact Or.inl (hstay hs)
  | after v => exact afterValue_open h hs
  | str isKey units =>
    simp only [step] at hs
    split_ifs at hs
    · unfold endString at hs
      split_ifs at hs
      · split at hs <;> cases hs
        exact Or.inl (List.cons_ne_nil _ _)
      · exact Or.inl (hstay hs)
    · exact Or.inl (hstay hs)
    · exact Or.inl (hstay hs)
  | escape isKey units =>
    simp only [step] at hs
    split_ifs at hs
    · exact Or.inl (hstay hs)
    · obtain ⟨e, -, he⟩ := Option.map_eq_some_iff.1 hs
      exact Or.inl (hstay (congrArg some he))
  | hex isKey units count value =>
    obtain ⟨d, -, hd⟩ := Option.map_eq_some_iff.1 hs
    split_ifs at hd <;> exact Or.inl (hstay (congrArg some hd))
  | num units =>
    simp only [step] at hs
    split_ifs at hs
    · exact Or.inl (hstay hs)
    · obtain ⟨n, -, hafter⟩ := Option.bind_eq_some_iff.1 hs
      exact afterValue_open h hafter
  | word w count =>
    simp only [step] at hs
    split_ifs at hs <;> exact Or.inl (hstay hs)

theorem step_closed {s s' : State} {u : UInt16} (h : s.Closed) (hs : step s u = some s') :
    isJsonSpace u = true ∧ s' = s := by
  obtain ⟨stack, scan⟩ := s
  obtain ⟨hstack, v, hscan⟩ := h
  cases hstack
  cases hscan
  simp only [step, afterValue] at hs
  split_ifs at hs with hu
  cases hs
  exact ⟨hu, rfl⟩

theorem finish_open {s : State} (h : s.stack ≠ []) : finish s = none := by
  obtain ⟨_ | ⟨frame, stack⟩, scan⟩ := s
  · exact absurd rfl h
  · rfl

theorem closer_not_space {u : UInt16} (h : isCloser u = true) : isJsonSpace u = false := by
  unfold isCloser at h
  rcases Bool.or_eq_true_iff.1 h with h | h <;> rw [of_decide_eq_true h] <;> decide

/-- after a closed document there is only white space -/
theorem run_closed {s s' : State} {text : JsString} (h : s.Closed) (hs : text.foldlM step s = some s') :
    ∀ u ∈ text, isJsonSpace u = true := by
  induction text generalizing s with
  | nil => exact nofun
  | cons u text ih =>
    rw [List.foldlM_cons] at hs
    obtain ⟨t, ht, hrest⟩ := Option.bind_eq_some_iff.1 hs
    obtain ⟨hu, rfl⟩ := step_closed h ht
    exact List.forall_mem_cons.2 ⟨hu, ih h hrest⟩

/-- as long as the text goes on to a closer, something is open -/
theorem run_open {s s' t : State} {text rest : JsString} (h : s.stack ≠ []) (hs : text.foldlM step s = some s')
    (hrest : rest.foldlM step s' = some t) (hclose : ∃ u ∈ rest, isCloser u = true) : s'.stack ≠ [] := by
  induction text generalizing s with
  | nil =>
    cases hs
    exact h
  | cons u text ih =>
    rw [List.foldlM_cons] at hs
    obtain ⟨m, hm, htext⟩ := Option.bind_eq_some_iff.1 hs
    rcases step_open h hm with hopen | ⟨-, hclosed⟩
    · exact ih hopen htext
    · -- nothing but white space could follow
      have hall : (text ++ rest).foldlM step m = some t := by
        rw [List.foldlM_append, htext]
        exact hrest
      obtain ⟨v, hv, hcloser⟩ := hclose
      have hspace := run_closed hclosed hall v (List.mem_append_right _ hv)
      rw [closer_not_space hcloser] at hspace
      cases hspace

/-! ## What is left of a document -/

/-- the text of an array or an object, with nothing around it -/
structure Document (text : JsString) : Prop where
  parses : ∃ v, jsonParse text = some v
  enclosed : ∃ first middle last, text = first :: middle ++ [last] ∧ (first = unit '[' ∨ first = unit '\x7b') ∧
    isCloser last = true

/-- what stands in the place of units that were cut off -/
def isFiller (u : UInt16) : Bool := u = 0 || 0x80 ≤ u.toNat

theorem filler_ne {u : UInt16} (h : isFiller u = true) {c : Char} (hc : isFiller (unit c) = false) : u ≠ unit c := by
  rintro rfl
  rw [h] at hc
  cases hc

theorem filler_not_closer {u : UInt16} (h : isFiller u = true) : isCloser u = false := by
  simp [isCloser, filler_ne h (c := ']') (by decide), filler_ne h (c := '\x7d') (by decide)]

theorem filler_not_space {u : UInt16} (h : isFiller u = true) : isJsonSpace u = false := by
  simp [isJsonSpace, filler_ne h (c := ' ') (by decide), filler_ne h (c := '\t') (by decide),
    filler_ne h (c := '\n') (by decide), filler_ne h (c := '\r') (by decide)]

theorem filler_not_digit {u : UInt16} (h : isFiller u = true) : isDigit u = false := by
  by_contra hd
  have hb := isDigit_bounds (by simpa using hd)
  simp only [isFiller, Bool.or_eq_true, decide_eq_true_eq] at h
  rcases h with rfl | h
  · exact absurd hb.1 (by decide)
  · omega

theorem filler_not_number {u : UInt16} (h : isFiller u = true) : inNumber u = false := by
  simp [inNumber, filler_not_digit h, filler_ne h (c := '-') (by decide), filler_ne h (c := '+') (by decide),
    filler_ne h (c := '.') (by decide), filler_ne h (c := 'e') (by decide), filler_ne h (c := 'E') (by decide)]

/-- no value begins with a filler -/
theorem step_filler {stack : List Frame} {u : UInt16} (h : isFiller u = true) : step ⟨stack, .value⟩ u = none := by
  have hne : ∀ {c : Char}, isFiller (unit c) = false → u ≠ unit c := fun hc => filler_ne h hc
  have hquote : u ≠ quote := hne (by decide)
  simp [step, filler_not_space h, beginValue, hquote, filler_not_digit h, hne (c := '\x7b') (by decide),
    hne (c := '[') (by decide), hne (c := '-') (by decide), hne (c := 't') (by decide), hne (c := 'f') (by decide),
    hne (c := 'n') (by decide)]

/-- fillers close nothing -/
theorem run_filler {s : State} {filler : JsString} (h : s.stack ≠ []) (hf : ∀ u ∈ filler, isFiller u = true) :
    (filler.foldlM step s).bind finish = none := by
  induction filler generalizing s with
  | nil => exact finish_open h
  | cons u filler ih =>
    obtain ⟨hu, hrest⟩ := List.forall_mem_cons.1 hf
    rw [foldlM_cons]
    cases hs : step s u with
    | none => rfl
    | some s' =>
      rcases step_open h hs with hopen | ⟨hcloser, -⟩
      · exact ih hopen hrest
      · rw [filler_not_closer hu] at hcloser
        cases hcloser

/-- nothing but white space can follow a document -/
theorem padded_refused {text filler : JsString} (h : ∃ v, jsonParse text = some v) (hne : filler ≠ [])
    (hf : ∀ u ∈ filler, isFiller u = true) : jsonParse (text ++ filler) = none := by
  obtain ⟨v, hv⟩ := h
  obtain ⟨s, hs, hfinish⟩ := Option.bind_eq_some_iff.1 hv
  obtain ⟨u, filler, rfl⟩ := List.exists_cons_of_ne_nil hne
  have hu := (List.forall_mem_cons.1 hf).1
  have hstep : step s u = none := by
    have hafter : ∀ v, afterValue [] v u = none := fun v => by simp [afterValue, filler_not_space hu]
    obtain ⟨_ | ⟨frame, stack⟩, scan⟩ := s
    · cases scan <;> try cases hfinish
      · exact hafter _
      · simp [step, filler_not_number hu, hafter]
    · cases hfinish
  unfold jsonParse
  rw [List.foldlM_append]
  change ((text.foldlM step _).bind fun s' => (u :: filler).foldlM step s').bind finish = none
  rw [hs, Option.bind_some, foldlM_cons, hstep]
  rfl

/-- something was cut off -/
theorem open_refused {cut rest filler : JsString} (h : Document (cut ++ rest)) (hrest : rest ≠ [])
    (hf : ∀ u ∈ filler, isFiller u = true) : jsonParse (cut ++ filler) = none := by
  obtain ⟨⟨v, hv⟩, first, middle, last, htext, hfirst, hlast⟩ := h
  obtain ⟨s, hs, -⟩ := Option.bind_eq_some_iff.1 hv
  cases cut with
  | nil =>
    cases filler with
    | nil => rfl
    | cons u filler =>
      unfold jsonParse
      rw [List.nil_append, foldlM_cons, step_filler (List.forall_mem_cons.1 hf).1]
      rfl
  | cons u cut =>
    obtain ⟨rfl, hmiddle⟩ : u = first ∧ cut ++ rest = middle ++ [last] := by simpa using htext
    have hmem : last ∈ rest := by
      have hl := congrArg List.getLast? hmiddle
      rw [List.getLast?_append_of_ne_nil _ hrest, List.getLast?_concat] at hl
      exact List.mem_of_getLast? hl
    -- the first unit opens the array or the object
    obtain ⟨t, ht, hopen⟩ : ∃ t, step ⟨[], .value⟩ u = some t ∧ t.stack ≠ [] := by
      rcases hfirst with rfl | rfl
      · exact ⟨_, rfl, List.cons_ne_nil _ _⟩
      · exact ⟨_, rfl, List.cons_ne_nil _ _⟩
    rw [List.cons_append, List.foldlM_cons, ht] at hs
    obtain ⟨m, hm, hend⟩ := Option.bind_eq_some_iff.1 ((List.foldlM_append (m := Option)).symm.trans hs)
    unfold jsonParse
    rw [List.cons_append, foldlM_cons, ht, Option.bind_some, List.foldlM_append]
    change ((cut.foldlM step t).bind fun s' => filler.foldlM step s').bind finish = none
    rw [hm]
    exact run_filler (run_open hopen hm hend ⟨last, hmem, hlast⟩) hf

/-- **What is left of a document is no document**, whatever fills the place of the rest. -/
theorem cut_refused {cut rest filler : JsString} (h : Document (cut ++ rest)) (hne : rest ≠ [] ∨ filler ≠ [])
    (hf : ∀ u ∈ filler, isFiller u = true) : jsonParse (cut ++ filler) = none := by
  by_cases hrest : rest = []
  · subst hrest
    rw [List.append_nil] at h
    exact padded_refused h.parses (hne.resolve_left (not_not.2 rfl)) hf
  · exact open_refused h hrest hf

/-! ### Documents that are made -/

/-- an array or an object -/
def isContainer : JsValue → Bool
  | .arr _ | .obj _ => true
  | _ => false

/-- `JSON.stringify` makes documents of arrays and objects, and `JSON.parse` reads them back -/
def Prints (stringify : JsValue → JsString) : Prop := ∀ v, JsonPrint.Plain v → isContainer v = true →
  Document (stringify v) ∧ jsonParse (stringify v) = some v

end JsonParse

namespace JsonStore

open JsonParse

/-! ## Bytes that are filled up -/

theorem filler_zeros (k : ℕ) : ∀ u ∈ decodeUtf8 (List.replicate k 0), isFiller u = true := by
  induction k with
  | zero => exact nofun
  | succ k ih =>
    rw [List.replicate_succ, decode_one (by decide)]
    exact List.forall_mem_cons.2 ⟨rfl, ih⟩

/-- what a code point with only zero bits at its end is made of -/
theorem filler_codeUnits {p : ℕ} (h : p = 0 ∨ 0x80 ≤ p) (hlt : p < 0x200000) : ∀ u ∈ codeUnits p, isFiller u = true := by
  have hunit : ∀ n, n = 0 ∨ 0x80 ≤ n → n < 65536 → isFiller (fromCharCode n) = true := by
    intro n hn hlt
    have htoNat : (fromCharCode n).toNat = n := toNat_fromCharCode (by omega)
    rcases hn with rfl | hn
    · rfl
    · simp [isFiller, htoNat, hn]
  unfold codeUnits
  split_ifs with hbmp
  · exact List.forall_mem_singleton.2 (hunit p h (by omega))
  · have hshift : (p - 0x10000) >>> 10 = (p - 0x10000) / 1024 := Nat.shiftRight_eq_div_pow _ 10
    have hand : (p - 0x10000) &&& 0x3ff = (p - 0x10000) % 1024 := Nat.and_two_pow_sub_one_eq_mod _ 10
    simp only [hshift, hand]
    refine List.forall_mem_cons.2 ⟨hunit _ (Or.inr (by omega)) (by omega), List.forall_mem_singleton.2 ?_⟩
    exact hunit _ (Or.inr (by omega)) (by omega)

theorem pushSix_zero (p : ℕ) : pushSix p 0 = p * 64 := by
  unfold pushSix
  rw [Nat.zero_and, Nat.or_zero, Nat.shiftLeft_eq]

/-- **A character that is cut off and filled up** with zero bytes is read as a filler, or not at all. -/
theorem filler_cut {p n : ℕ} (hp : p < 0x110000) (h : n < (encodePoint p).length) (k : ℕ) :
    ∀ u ∈ decodeUtf8 ((encodePoint p).take n ++ List.replicate k 0), isFiller u = true := by
  have hs6 : p >>> 6 = p / 64 := Nat.shiftRight_eq_div_pow p 6
  have hs12 : p >>> 12 = p / 4096 := Nat.shiftRight_eq_div_pow p 12
  have hs18 : p >>> 18 = p / 262144 := Nat.shiftRight_eq_div_pow p 18
  -- the code point that is read, and the zero bytes after it
  have hread : ∀ q k, q = 0 ∨ 0x80 ≤ q → q < 0x200000 →
      ∀ u ∈ codeUnits q ++ decodeUtf8 (List.replicate k 0), isFiller u = true :=
    fun q k hq hlt => List.forall_mem_append.2 ⟨filler_codeUnits hq hlt, filler_zeros k⟩
  unfold encodePoint at h ⊢
  simp only [and_0x3f, hs6, hs12, hs18] at h ⊢
  split_ifs at h ⊢ with h1 h2 h3 <;> simp only [List.length_cons, List.length_nil] at h
  · rw [show n = 0 by omega]
    exact filler_zeros k
  · obtain ⟨l1, l2, hx⟩ := @lead2 (p / 64) (by omega)
    interval_cases n
    · exact filler_zeros k
    · rcases k with _ | k <;>
        simp only [List.take_succ_cons, List.take_zero, List.cons_append, List.nil_append, List.replicate, decodeUtf8,
          if_neg l1, if_pos l2, hx, pushSix_zero]
      · exact List.forall_mem_nil _
      · exact hread _ k (by omega) (by omega)
  · obtain ⟨l1, l2, l3, hx⟩ := @lead3 (p / 4096) (by omega)
    have hy := fun q => pushSix_continuation q (Nat.mod_lt (p / 64) (by decide : 0 < 64))
    interval_cases n
    · exact filler_zeros k
    · rcases k with _ | _ | k <;>
        simp only [List.take_succ_cons, List.take_zero, List.cons_append, List.nil_append, List.replicate, decodeUtf8,
          if_neg l1, if_neg l2, if_pos l3, hx, pushSix_zero]
      · exact List.forall_mem_nil _
      · exact List.forall_mem_nil _
      · exact hread _ k (by omega) (by omega)
    · rcases k with _ | k <;>
        simp only [List.take_succ_cons, List.take_zero, List.cons_append, List.nil_append, List.replicate, decodeUtf8,
          if_neg l1, if_neg l2, if_pos l3, hx, hy, pushSix_zero]
      · exact List.forall_mem_nil _
      · exact hread _ k (by omega) (by omega)
  · obtain ⟨l1, l2, l3, l4, hx⟩ := @lead4 (p / 262144) (by omega)
    have hy := fun q => pushSix_continuation q (Nat.mod_lt (p / 4096) (by decide : 0 < 64))
    have hz := fun q => pushSix_continuation q (Nat.mod_lt (p / 64) (by decide : 0 < 64))
    interval_cases n
    · exact filler_zeros k
    · rcases k with _ | _ | _ | k <;>
        simp only [List.take_succ_cons, List.take_zero, List.cons_append, List.nil_append, List.replicate, decodeUtf8,
          if_neg l1, if_neg l2, if_neg l3, if_pos l4, hx, pushSix_zero]
      · exact List.forall_mem_nil _
      · exact List.forall_mem_nil _
      · exact List.forall_mem_nil _
      · exact hread _ k (by omega) (by omega)
    · rcases k with _ | _ | k <;>
        simp only [List.take_succ_cons, List.take_zero, List.cons_append, List.nil_append, List.replicate, decodeUtf8,
          if_neg l1, if_neg l2, if_neg l3, if_pos l4, hx, hy, pushSix_zero]
      · exact List.forall_mem_nil _
      · exact List.forall_mem_nil _
      · exact hread _ k (by omega) (by omega)
    · rcases k with _ | k <;>
        simp only [List.take_succ_cons, List.take_zero, List.cons_append, List.nil_append, List.replicate, decodeUtf8,
          if_neg l1, if_neg l2, if_neg l3, if_pos l4, hx, hy, hz, pushSix_zero]
      · exact List.forall_mem_nil _
      · exact hread _ k (by omega) (by omega)

/-- one character, whole or cut off, and what comes after it -/
theorem decode_filled_encodePoint {p : ℕ} (hp : p < 0x110000) (n k : ℕ) (bytes : List ℕ) :
    ((encodePoint p).length ≤ n ∧ decodeUtf8 ((encodePoint p ++ bytes).take n ++ List.replicate k 0) =
        codeUnits p ++ decodeUtf8 (bytes.take (n - (encodePoint p).length) ++ List.replicate k 0)) ∨
      n < (encodePoint p).length ∧
        ∀ u ∈ decodeUtf8 ((encodePoint p ++ bytes).take n ++ List.replicate k 0), isFiller u = true := by
  rcases Nat.lt_or_ge n (encodePoint p).length with h | h
  · refine Or.inr ⟨h, ?_⟩
    rw [List.take_append_of_le_length h.le]
    exact filler_cut hp h k
  · refine Or.inl ⟨h, ?_⟩
    rw [List.take_append, List.take_of_length_le h, List.append_assoc, decode_encodePoint hp]

/-- **Bytes that are cut off and filled up** with zero bytes are read as the characters that are whole, and fillers. -/
theorem decode_filled (n k : ℕ) (s : JsString) : ∃ filler,
    decodeUtf8 ((encodeUtf8 s).take n ++ List.replicate k 0) = fits n s ++ filler ∧ ∀ u ∈ filler, isFiller u = true := by
  have hu : ∀ u : UInt16, u.toNat < 0x110000 := fun u => u.toNat_lt.trans (by decide)
  induction s using encodeUtf8.induct generalizing n with
  | case1 =>
    rw [encodeUtf8, List.take_nil]
    exact ⟨_, rfl, filler_zeros k⟩
  | case2 u =>
    have h := decode_filled_encodePoint (hu u) n k []
    rw [List.append_nil, codeUnits_unit, List.take_nil, List.nil_append] at h
    rcases h with ⟨hlen, h⟩ | ⟨hlen, h⟩
    · exact ⟨_, by rw [encodeUtf8, h, fits, if_pos hlen], filler_zeros k⟩
    · exact ⟨_, by rw [encodeUtf8, fits, if_neg (by omega)]; rfl, h⟩
  | case3 hi lo rest hp ih =>
    obtain ⟨hh, hl⟩ := Bool.and_eq_true_iff.1 hp
    obtain ⟨hlt, hpair⟩ := codeUnits_pair hh hl
    rw [encodeUtf8, if_pos hp, fits, if_pos hp]
    rcases decode_filled_encodePoint hlt n k (encodeUtf8 rest) with ⟨hlen, h⟩ | ⟨hlen, h⟩
    · obtain ⟨filler, hfiller, hall⟩ := ih (n - _)
      exact ⟨filler, by rw [h, hpair, hfiller, if_pos hlen]; rfl, hall⟩
    · exact ⟨_, by rw [if_neg (by omega)]; rfl, h⟩
  | case4 hi lo rest hp ih =>
    rw [encodeUtf8, if_neg hp, fits, if_neg hp]
    rcases decode_filled_encodePoint (hu hi) n k (encodeUtf8 (lo :: rest)) with ⟨hlen, h⟩ | ⟨hlen, h⟩
    · obtain ⟨filler, hfiller, hall⟩ := ih (n - _)
      exact ⟨filler, by rw [h, codeUnits_unit, hfiller, if_pos hlen]; rfl, hall⟩
    · exact ⟨_, by rw [if_neg (by omega)]; rfl, h⟩

theorem fits_prefix (n : ℕ) (s : JsString) : fits n s <+: s := by
  induction s using encodeUtf8.induct generalizing n with
  | case1 => exact List.prefix_rfl
  | case2 u =>
    rw [fits]
    split_ifs
    · exact List.prefix_rfl
    · exact List.nil_prefix
  | case3 hi lo rest hp ih =>
    rw [fits, if_pos hp]
    simp only
    split_ifs
    · exact List.cons_prefix_cons.2 ⟨rfl, List.cons_prefix_cons.2 ⟨rfl, ih _⟩⟩
    · exact List.nil_prefix
  | case4 hi lo rest hp ih =>
    rw [fits, if_neg hp]
    simp only
    split_ifs
    · exact List.cons_prefix_cons.2 ⟨rfl, ih _⟩
    · exact List.nil_prefix

/-- **A text that is cut off** is read as the characters that are whole, and fillers. -/
theorem textOf_fits (content : JsString) (n k : ℕ) : ∃ filler,
    textOf ((bytesOf content).take n ++ List.replicate k 0) = fits n content ++ filler ∧ ∀ u ∈ filler, isFiller u = true := by
  have hnumbers : numbers ((bytesOf content).take n ++ List.replicate k 0) =
      (encodeUtf8 content).take n ++ List.replicate k 0 := by
    rw [numbers_append, ← numbers_bytesOf]
    simp only [numbers, List.map_take, List.map_replicate]
    rfl
  obtain ⟨filler, hfiller, hall⟩ := decode_filled n k content
  refine ⟨filler, ?_, hall⟩
  unfold textOf
  rw [hnumbers, hfiller]

/-- **A document is read whole or refused**, wherever its bytes are cut off and however many zero bytes fill them up. -/
theorem textOf_filled {content : JsString} (h : Document content) (n k : ℕ) :
    textOf ((bytesOf content).take n ++ List.replicate k 0) = content ∨
      jsonParse (textOf ((bytesOf content).take n ++ List.replicate k 0)) = none := by
  obtain ⟨filler, htext, hall⟩ := textOf_fits content n k
  obtain ⟨rest, hrest⟩ := fits_prefix n content
  rw [htext]
  by_cases hwhole : rest = [] ∧ filler = []
  · left
    rw [hwhole.1] at hrest
    rw [hwhole.2, hrest]
  · right
    refine cut_refused (hrest.symm ▸ h) ?_ hall
    by_contra hne
    exact hwhole (not_or.1 hne |>.imp not_not.1 not_not.1)

end JsonStore

end ShadowsocksOhos
