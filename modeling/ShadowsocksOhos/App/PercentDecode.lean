/-
`decodeURIComponent` undoes `encodeURIComponent` on every text. Escapes and plain characters do not mix: a `%` in the
encoded text always begins an escape, and the bytes of an escaped character stand together.
-/
import ShadowsocksOhos.App.Profile

namespace ShadowsocksOhos

/-! ## Escapes -/

theorem hexValue_hexDigit {n : ℕ} (h : n < 16) : hexValue (hexDigit n) = some n := by
  revert n
  decide

theorem pieces_escapeByte {b : ℕ} (hb : b < 256) (rest : JsString) :
    pieces (escapeByte b ++ rest) = (pieces rest).map (.byte b :: ·) := by
  have hv : b / 16 * 16 + b % 16 = b := by omega
  unfold escapeByte
  simp only [List.cons_append, List.nil_append]
  conv_lhs => unfold pieces
  simp only [ne_eq, not_true_eq_false, if_false, hexValue_hexDigit (show b / 16 < 16 by omega),
    hexValue_hexDigit (show b % 16 < 16 by omega), hv]

theorem pieces_escapeBytes {bytes : List ℕ} (hb : ∀ b ∈ bytes, b < 256) (rest : JsString) :
    pieces (bytes.flatMap escapeByte ++ rest) = (pieces rest).map (bytes.map .byte ++ ·) := by
  induction bytes with
  | nil => simp
  | cons b bytes ih =>
    rw [List.flatMap_cons, List.append_assoc, pieces_escapeByte (hb b List.mem_cons_self),
      ih fun c hc => hb c (List.mem_cons_of_mem _ hc)]
    simp [Option.map_map, Function.comp_def]

/-- a character that is not escaped is no `%` -/
theorem unescaped_unit {c : Char} (h : uriUnescaped c = true) : c.toNat < 0x80 ∧ unit c ≠ unit '%' := by
  have hlt : c.toNat < 0x80 := by
    have hmarks : ∀ d ∈ "-_.!~*'()".toList, d.toNat < 0x80 := forall_mem_of_all (by decide)
    simp only [uriUnescaped, Bool.or_eq_true, Bool.and_eq_true, decide_eq_true_eq] at h
    rcases h with ((h | h) | h) | h
    · omega
    · omega
    · omega
    · exact hmarks c h
  refine ⟨hlt, fun he => ?_⟩
  have hn := congrArg UInt16.toNat he
  rw [toNat_unit (by omega), toNat_unit (by decide)] at hn
  have hc : c = '%' := Char.ext (UInt32.toNat_inj.1 hn)
  rw [hc] at h
  revert h
  decide

/-! ## Well-formed bytes -/

theorem scalar_char (c : Char) : scalar c.toNat (encodePoint c.toNat) = some (codeUnits c.toNat) :=
  if_pos ⟨c.valid, rfl⟩

/-- the bytes of a character are read back -/
theorem decodePieces_encodePoint (c : Char) (rest : List Piece) :
    decodePieces ((encodePoint c.toNat).map .byte ++ rest) = (decodePieces rest).map (codeUnits c.toNat ++ ·) := by
  have hlt := char_toNat_lt c
  have hs6 : c.toNat >>> 6 = c.toNat / 64 := Nat.shiftRight_eq_div_pow _ 6
  have hs12 : c.toNat >>> 12 = c.toNat / 4096 := Nat.shiftRight_eq_div_pow _ 12
  have hs18 : c.toNat >>> 18 = c.toNat / 262144 := Nat.shiftRight_eq_div_pow _ 18
  have hscalar := scalar_char c
  have hsix : ∀ p x, pushSix p (0x80 ||| x % 64) = p * 64 + x % 64 :=
    fun p x => pushSix_continuation p (Nat.mod_lt _ (by decide))
  by_cases h1 : c.toNat < 0x80
  · have he : encodePoint c.toNat = [c.toNat] := if_pos h1
    have hu : codeUnits c.toNat = [fromCharCode c.toNat] := if_pos (by omega)
    rw [he, hu]
    simp only [List.map_cons, List.map_nil, List.cons_append, List.nil_append]
    conv_lhs => unfold decodePieces
    rw [if_pos h1]
  by_cases h2 : c.toNat < 0x800
  · have he : encodePoint c.toNat = [0xc0 ||| c.toNat / 64, 0x80 ||| c.toNat % 64] := by
      unfold encodePoint
      rw [if_neg h1, if_pos h2, hs6, and_0x3f]
    obtain ⟨l1, l2, l3⟩ := @lead2 (c.toNat / 64) (by omega)
    have hv : c.toNat / 64 * 64 + c.toNat % 64 = c.toNat := by omega
    rw [he] at hscalar ⊢
    simp only [List.map_cons, List.map_nil, List.cons_append, List.nil_append]
    conv_lhs => unfold decodePieces
    simp only [if_neg l1, if_pos l2, l3, hsix, hv, hscalar]
    rfl
  by_cases h3 : c.toNat < 0x10000
  · have he : encodePoint c.toNat =
        [0xe0 ||| c.toNat / 4096, 0x80 ||| c.toNat / 64 % 64, 0x80 ||| c.toNat % 64] := by
      unfold encodePoint
      rw [if_neg h1, if_neg h2, if_pos h3, hs6, hs12, and_0x3f, and_0x3f]
    obtain ⟨l1, l2, l3, l4⟩ := @lead3 (c.toNat / 4096) (by omega)
    have hv : (c.toNat / 4096 * 64 + c.toNat / 64 % 64) * 64 + c.toNat % 64 = c.toNat := by omega
    rw [he] at hscalar ⊢
    simp only [List.map_cons, List.map_nil, List.cons_append, List.nil_append]
    conv_lhs => unfold decodePieces
    simp only [if_neg l1, if_neg l2, if_pos l3, l4, hsix, hv, hscalar]
    rfl
  · have he : encodePoint c.toNat = [0xf0 ||| c.toNat / 262144, 0x80 ||| c.toNat / 4096 % 64,
        0x80 ||| c.toNat / 64 % 64, 0x80 ||| c.toNat % 64] := by
      unfold encodePoint
      rw [if_neg h1, if_neg h2, if_neg h3, hs6, hs12, hs18, and_0x3f, and_0x3f, and_0x3f]
    obtain ⟨l1, l2, l3, l4, l5⟩ := @lead4 (c.toNat / 262144) (by omega)
    have hv : ((c.toNat / 262144 * 64 + c.toNat / 4096 % 64) * 64 + c.toNat / 64 % 64) * 64 + c.toNat % 64 =
        c.toNat := by omega
    rw [he] at hscalar ⊢
    simp only [List.map_cons, List.map_nil, List.cons_append, List.nil_append]
    conv_lhs => unfold decodePieces
    simp only [if_neg l1, if_neg l2, if_neg l3, if_pos l4, l5, hsix, hv, hscalar]
    rfl

/-- the pieces of an encoded text -/
theorem decode_pieces (s : List Char) : (pieces (encodeURIComponent s)).bind decodePieces = some (utf16 s) := by
  induction s with
  | nil => rfl
  | cons c s ih =>
    obtain ⟨ps, hps, hdec⟩ := Option.bind_eq_some_iff.1 ih
    have hcons : encodeURIComponent (c :: s) =
        (if uriUnescaped c then [unit c] else (encodePoint c.toNat).flatMap escapeByte) ++ encodeURIComponent s :=
      List.flatMap_cons
    rw [hcons, utf16_cons]
    by_cases hc : uriUnescaped c = true
    · obtain ⟨hlt, hne⟩ := unescaped_unit hc
      have hu : codeUnits c.toNat = [unit c] := if_pos (by omega)
      rw [if_pos hc, hu, List.singleton_append]
      unfold pieces
      rw [if_pos hne, hps]
      simp [decodePieces, hdec]
    · rw [if_neg hc, pieces_escapeBytes (encodePoint_lt (char_toNat_lt c)), hps]
      simp [decodePieces_encodePoint, hdec]

/-- **`decodeURIComponent` undoes `encodeURIComponent`.** -/
theorem percentDecode_encode (s : List Char) : percentDecode (encodeURIComponent s) = utf16 s := by
  unfold percentDecode decodeURIComponent
  rw [decode_pieces]
  rfl

end ShadowsocksOhos
