/-
What `Profile.decodeUtf8` does to bytes that are not UTF-8. Its docstring says that invalid sequences are skipped; but a
lead byte takes as many bytes with it as it announces, whatever they are, and where too few are left everything is dropped.

`takes` is the decoder with the place and the bytes of everything that it reads, `standing` the well-formed sequences of a
byte list at their places.

- `takes_units`: the units that are read make up `decodeUtf8`.
- `nextChar_iff`: `nextChar` finds every well-formed sequence.
- `ofChar_standing`: so every character stands where its bytes do.
- `skips_iff`: invalid bytes are skipped exactly when the first lead byte without a sequence is also the last thing there is.
- `absorbed`: a byte of another encoding in front of a line break.
-/
import ShadowsocksOhos.App.Utf8

namespace ShadowsocksOhos

namespace Utf8Skip

/-! ## The decoder with its places -/

/-- what is read at a place -/
structure Taken where
  place : ℕ
  bytes : List ℕ
  units : JsString
deriving DecidableEq, Repr

/-- `decodeUtf8` on bytes that begin at place `i` -/
def takes (i : ℕ) : List ℕ → List Taken
  | [] => []
  | lead :: rest =>
    if lead < 0x80 then ⟨i, [lead], [fromCharCode lead]⟩ :: takes (i + 1) rest
    else if lead &&& 0xe0 = 0xc0 then
      match rest with
      | b1 :: rest => ⟨i, [lead, b1], codeUnits (pushSix (lead &&& 0x1f) b1)⟩ :: takes (i + 2) rest
      | _ => []
    else if lead &&& 0xf0 = 0xe0 then
      match rest with
      | b1 :: b2 :: rest =>
        ⟨i, [lead, b1, b2], codeUnits (pushSix (pushSix (lead &&& 0x0f) b1) b2)⟩ :: takes (i + 3) rest
      | _ => []
    else if lead &&& 0xf8 = 0xf0 then
      match rest with
      | b1 :: b2 :: b3 :: rest =>
        ⟨i, [lead, b1, b2, b3], codeUnits (pushSix (pushSix (pushSix (lead &&& 0x07) b1) b2) b3)⟩ :: takes (i + 4) rest
      | _ => []
    else takes (i + 1) rest

/-! ## Well-formed sequences -/

/-- the character with this number, if these are its UTF-8 bytes -/
def charOf (p : ℕ) (octets : List ℕ) : Option Char :=
  if h : p.isValidChar then
    if numbers (String.utf8EncodeChar (Char.ofNatAux p h)) = octets then some (Char.ofNatAux p h) else none
  else none

/-- the character whose UTF-8 bytes stand in front -/
def nextChar : List ℕ → Option Char
  | [] => none
  | lead :: rest =>
    if lead < 0x80 then charOf lead [lead]
    else if lead &&& 0xe0 = 0xc0 then
      match rest with
      | b1 :: _ => charOf (pushSix (lead &&& 0x1f) b1) [lead, b1]
      | _ => none
    else if lead &&& 0xf0 = 0xe0 then
      match rest with
      | b1 :: b2 :: _ => charOf (pushSix (pushSix (lead &&& 0x0f) b1) b2) [lead, b1, b2]
      | _ => none
    else if lead &&& 0xf8 = 0xf0 then
      match rest with
      | b1 :: b2 :: b3 :: _ => charOf (pushSix (pushSix (pushSix (lead &&& 0x07) b1) b2) b3) [lead, b1, b2, b3]
      | _ => none
    else none

/-- a well-formed sequence and what it stands for -/
def Taken.ofChar (i : ℕ) (c : Char) : Taken := ⟨i, numbers (String.utf8EncodeChar c), codeUnits c.toNat⟩

/-- the well-formed sequences of bytes that begin at place `i` -/
def standing (i : ℕ) : List ℕ → List Taken
  | [] => []
  | b :: rest => ((nextChar (b :: rest)).map (Taken.ofChar i)).toList ++ standing (i + 1) rest

/-- invalid bytes are skipped: what is read are the well-formed sequences, and no others; so a character is read where its
UTF-8 bytes stand, every ASCII byte at its place, and nothing else is read as ASCII -/
structure Skips (bytes : List ℕ) : Prop where
  taken : takes 0 bytes = standing 0 bytes
  chars : ∀ i c, Taken.ofChar i c ∈ takes 0 bytes ↔ numbers (String.utf8EncodeChar c) <+: bytes.drop i
  decoded : decodeUtf8 bytes = (standing 0 bytes).flatMap Taken.units
  ascii : ∀ pre b post, bytes = pre ++ b :: post → b < 0x80 → ⟨pre.length, [b], [fromCharCode b]⟩ ∈ takes 0 bytes
  only : ∀ t ∈ takes 0 bytes, ∀ u ∈ t.units, u.toNat < 0x80 → t.bytes = [u.toNat]

/-! ## Lead bytes -/

def isLead (b : ℕ) : Bool := 0xc0 ≤ b && b ≤ 0xf7

/-- how many bytes a lead byte announces -/
def extra (b : ℕ) : ℕ := if b < 0xe0 then 1 else if b < 0xf0 then 2 else 3

/-- the first lead byte that begins no sequence, if there is one, announces more bytes than are left, and no sequence is
among them -/
def leadsOk : List ℕ → Bool
  | [] => true
  | b :: rest =>
    if isLead b && (nextChar (b :: rest)).isNone then rest.length < extra b && (standing 0 rest).isEmpty else leadsOk rest

/-- the masks of the decoder -/
theorem masks {b : ℕ} (hb : b < 256) : (b &&& 0xe0 = 0xc0 ↔ 0xc0 ≤ b ∧ b < 0xe0) ∧ (b &&& 0xf0 = 0xe0 ↔ 0xe0 ≤ b ∧ b < 0xf0) ∧
    (b &&& 0xf8 = 0xf0 ↔ 0xf0 ≤ b ∧ b < 0xf8) := by
  revert b
  decide +kernel

theorem isLead_iff {b : ℕ} : isLead b = true ↔ 0xc0 ≤ b ∧ b ≤ 0xf7 := by
  simp [isLead]

/-- the first byte is ASCII, or a lead byte with as many bytes as it announces or with too few, or something else -/
inductive Front (lead : ℕ) (rest : List ℕ) : Prop where
  | ascii (hlt : lead < 0x80) (htakes : ∀ i, takes i (lead :: rest) = ⟨i, [lead], [fromCharCode lead]⟩ :: takes (i + 1) rest)
    (hdecode : decodeUtf8 (lead :: rest) = fromCharCode lead :: decodeUtf8 rest)
    (hnext : nextChar (lead :: rest) = charOf lead [lead])
  | whole (hlead : isLead lead = true) (xs rest' : List ℕ) (p : ℕ) (hrest : rest = xs ++ rest')
    (hlen : xs.length = extra lead)
    (htakes : ∀ i, takes i (lead :: rest) = ⟨i, lead :: xs, codeUnits p⟩ :: takes (i + 1 + xs.length) rest')
    (hdecode : decodeUtf8 (lead :: rest) = codeUnits p ++ decodeUtf8 rest')
    (hnext : nextChar (lead :: rest) = charOf p (lead :: xs))
  | cut (hlead : isLead lead = true) (hlen : rest.length < extra lead) (htakes : ∀ i, takes i (lead :: rest) = [])
    (hdecode : decodeUtf8 (lead :: rest) = []) (hnext : nextChar (lead :: rest) = none)
  | other (hge : 0x80 ≤ lead) (hlead : isLead lead = false) (htakes : ∀ i, takes i (lead :: rest) = takes (i + 1) rest)
    (hdecode : decodeUtf8 (lead :: rest) = decodeUtf8 rest) (hnext : nextChar (lead :: rest) = none)

theorem front {lead : ℕ} (hb : lead < 256) (rest : List ℕ) : Front lead rest := by
  obtain ⟨m2, m3, m4⟩ := masks hb
  by_cases h1 : lead < 0x80
  · refine .ascii h1 ?_ (decode_one h1 rest) ?_
    · intro i
      conv_lhs => unfold takes
      rw [if_pos h1]
    · unfold nextChar
      simp only [if_pos h1]
  by_cases h2 : lead &&& 0xe0 = 0xc0
  · have hr := m2.1 h2
    have hlead : isLead lead = true := isLead_iff.2 (by omega)
    have hextra : extra lead = 1 := by rw [extra, if_pos hr.2]
    rcases rest with _ | ⟨b1, rest⟩
    · refine .cut hlead (by rw [hextra]; decide) ?_ ?_ ?_ <;> simp [takes, decodeUtf8, nextChar, h1, h2]
    · refine .whole hlead [b1] rest (pushSix (lead &&& 0x1f) b1) rfl hextra.symm ?_ ?_ ?_ <;>
        simp [takes, decodeUtf8, nextChar, h1, h2]
  by_cases h3 : lead &&& 0xf0 = 0xe0
  · have hr := m3.1 h3
    have hlead : isLead lead = true := isLead_iff.2 (by omega)
    have hextra : extra lead = 2 := by rw [extra, if_neg (by omega), if_pos hr.2]
    rcases rest with _ | ⟨b1, _ | ⟨b2, rest⟩⟩
    · refine .cut hlead (by rw [hextra]; decide) ?_ ?_ ?_ <;> simp [takes, decodeUtf8, nextChar, h1, h2, h3]
    · refine .cut hlead (by rw [hextra]; exact Nat.one_lt_two) ?_ ?_ ?_ <;> simp [takes, decodeUtf8, nextChar, h1, h2, h3]
    · refine .whole hlead [b1, b2] rest (pushSix (pushSix (lead &&& 0x0f) b1) b2) rfl hextra.symm ?_ ?_ ?_ <;>
        simp [takes, decodeUtf8, nextChar, h1, h2, h3, Nat.add_assoc]
  by_cases h4 : lead &&& 0xf8 = 0xf0
  · have hr := m4.1 h4
    have hlead : isLead lead = true := isLead_iff.2 (by omega)
    have hextra : extra lead = 3 := by rw [extra, if_neg (by omega), if_neg (by omega)]
    rcases rest with _ | ⟨b1, _ | ⟨b2, _ | ⟨b3, rest⟩⟩⟩
    · refine .cut hlead (by rw [hextra]; decide) ?_ ?_ ?_ <;> simp [takes, decodeUtf8, nextChar, h1, h2, h3, h4]
    · refine .cut hlead (by rw [hextra]; simp) ?_ ?_ ?_ <;> simp [takes, decodeUtf8, nextChar, h1, h2, h3, h4]
    · refine .cut hlead (by rw [hextra]; simp) ?_ ?_ ?_ <;> simp [takes, decodeUtf8, nextChar, h1, h2, h3, h4]
    · refine .whole hlead [b1, b2, b3] rest (pushSix (pushSix (pushSix (lead &&& 0x07) b1) b2) b3) rfl hextra.symm ?_ ?_ ?_ <;>
        simp [takes, decodeUtf8, nextChar, h1, h2, h3, h4, Nat.add_assoc]
  · have hlead : isLead lead = false := by
      rw [Bool.eq_false_iff]
      intro hc
      have := isLead_iff.1 hc
      rw [m2] at h2
      rw [m3] at h3
      rw [m4] at h4
      omega
    refine .other (not_lt.1 h1) hlead ?_ ?_ ?_
    · intro i
      conv_lhs => unfold takes
      rw [if_neg h1, if_neg h2, if_neg h3, if_neg h4]
    · conv_lhs => unfold decodeUtf8
      rw [if_neg h1, if_neg h2, if_neg h3, if_neg h4]
    · unfold nextChar
      simp only [if_neg h1, if_neg h2, if_neg h3, if_neg h4]

/-- the units that are read are those of `decodeUtf8` -/
theorem takes_units (i : ℕ) {bytes : List ℕ} (hb : ∀ b ∈ bytes, b < 256) :
    (takes i bytes).flatMap Taken.units = decodeUtf8 bytes := by
  induction hn : bytes.length using Nat.strong_induction_on generalizing i bytes with
  | _ n ih =>
    cases bytes with
    | nil => rfl
    | cons lead rest =>
      have hrest : ∀ b ∈ rest, b < 256 := fun b h => hb b (List.mem_cons_of_mem _ h)
      cases front (hb lead List.mem_cons_self) rest with
      | ascii hlt htakes hdecode hnext =>
        rw [htakes, hdecode, List.flatMap_cons, ih rest.length (by rw [← hn]; simp) (i + 1) hrest rfl]
        rfl
      | whole hlead xs rest' p hsplit hlen htakes hdecode hnext =>
        rw [htakes, hdecode, List.flatMap_cons,
          ih rest'.length (by rw [← hn, hsplit]; simp) _ (fun b h => hrest b (hsplit ▸ List.mem_append_right _ h)) rfl]
      | cut hlead hlen htakes hdecode hnext => rw [htakes, hdecode, List.flatMap_nil]
      | other hge hlead htakes hdecode hnext =>
        rw [htakes, hdecode, ih rest.length (by rw [← hn]; simp) (i + 1) hrest rfl]

/-! ## Which sequences there are -/

theorem charOf_eq_some {p : ℕ} {octets : List ℕ} {c : Char} :
    charOf p octets = some c ↔ c.toNat = p ∧ numbers (String.utf8EncodeChar c) = octets := by
  unfold charOf
  constructor
  · intro h
    by_cases hp : p.isValidChar
    · rw [dif_pos hp] at h
      by_cases ho : numbers (String.utf8EncodeChar (Char.ofNatAux p hp)) = octets
      · rw [if_pos ho] at h
        cases h
        exact ⟨rfl, ho⟩
      · rw [if_neg ho] at h
        cases h
    · rw [dif_neg hp] at h
      cases h
  · rintro ⟨rfl, rfl⟩
    have hvalid : c.toNat.isValidChar := c.valid
    have hc : Char.ofNatAux c.toNat hvalid = c := rfl
    rw [dif_pos hvalid, hc, if_pos rfl]

/-- a sequence in front is found -/
theorem nextChar_encoded (c : Char) (rest : List ℕ) : nextChar (numbers (String.utf8EncodeChar c) ++ rest) = some c := by
  have hlt := char_toNat_lt c
  have hs6 : c.toNat >>> 6 = c.toNat / 64 := Nat.shiftRight_eq_div_pow _ 6
  have hs12 : c.toNat >>> 12 = c.toNat / 4096 := Nat.shiftRight_eq_div_pow _ 12
  have hs18 : c.toNat >>> 18 = c.toNat / 262144 := Nat.shiftRight_eq_div_pow _ 18
  have hbytes := numbers_utf8EncodeChar c
  rw [hbytes]
  unfold encodePoint at hbytes ⊢
  simp only [and_0x3f, hs6, hs12, hs18] at hbytes ⊢
  split_ifs at hbytes ⊢ with h1 h2 h3 <;> simp only [List.cons_append, List.nil_append, nextChar]
  · rw [if_pos h1]
    exact charOf_eq_some.2 ⟨rfl, hbytes⟩
  · obtain ⟨l1, l2, l3⟩ := @lead2 (c.toNat / 64) (by omega)
    rw [if_neg l1, if_pos l2, l3, pushSix_continuation _ (by omega)]
    exact charOf_eq_some.2 ⟨by omega, hbytes⟩
  · obtain ⟨l1, l2, l3, l4⟩ := @lead3 (c.toNat / 4096) (by omega)
    rw [if_neg l1, if_neg l2, if_pos l3, l4, pushSix_continuation _ (by omega), pushSix_continuation _ (by omega)]
    exact charOf_eq_some.2 ⟨by omega, hbytes⟩
  · obtain ⟨l1, l2, l3, l4, l5⟩ := @lead4 (c.toNat / 262144) (by omega)
    rw [if_neg l1, if_neg l2, if_neg l3, if_pos l4, l5, pushSix_continuation _ (by omega),
      pushSix_continuation _ (by omega), pushSix_continuation _ (by omega)]
    exact charOf_eq_some.2 ⟨by omega, hbytes⟩

/-- **`nextChar` finds every sequence**: it gives the character whose UTF-8 bytes stand in front, if there is one. -/
theorem nextChar_iff {bytes : List ℕ} (hb : ∀ b ∈ bytes, b < 256) {c : Char} :
    nextChar bytes = some c ↔ numbers (String.utf8EncodeChar c) <+: bytes := by
  constructor
  · intro h
    cases bytes with
    | nil => cases h
    | cons lead rest =>
      cases front (hb lead List.mem_cons_self) rest with
      | ascii hlt htakes hdecode hnext =>
        rw [hnext, charOf_eq_some] at h
        rw [h.2]
        exact ⟨rest, rfl⟩
      | whole hlead xs rest' p hsplit hlen htakes hdecode hnext =>
        rw [hnext, charOf_eq_some] at h
        rw [h.2, hsplit]
        exact ⟨rest', rfl⟩
      | cut hlead hlen htakes hdecode hnext =>
        rw [hnext] at h
        cases h
      | other hge hlead htakes hdecode hnext =>
        rw [hnext] at h
        cases h
  · rintro ⟨rest, rfl⟩
    exact nextChar_encoded c rest

/-- an ASCII byte is a sequence -/
theorem nextChar_ascii {b : ℕ} (h : b < 0x80) (rest : List ℕ) : ∃ c, nextChar (b :: rest) = some c ∧
    ∀ i, Taken.ofChar i c = ⟨i, [b], [fromCharCode b]⟩ := by
  have hvalid : b.isValidChar := by
    unfold Nat.isValidChar
    omega
  have hb : (Char.ofNatAux b hvalid).toNat = b := rfl
  have hbytes : numbers (String.utf8EncodeChar (Char.ofNatAux b hvalid)) = [b] := by
    rw [numbers_utf8EncodeChar, hb, encodePoint, if_pos h]
  refine ⟨Char.ofNatAux b hvalid, ?_, fun i => ?_⟩
  · have hfound := nextChar_encoded (Char.ofNatAux b hvalid) rest
    rw [hbytes] at hfound
    exact hfound
  · unfold Taken.ofChar codeUnits
    rw [hbytes, hb, if_pos (by omega)]

/-- the bytes after the first one of a sequence -/
theorem tail_bytes {c : Char} {lead : ℕ} {xs : List ℕ} (h : numbers (String.utf8EncodeChar c) = lead :: xs) :
    ∀ b ∈ xs, 0x80 ≤ b ∧ b < 0xc0 := by
  have h80 : ∀ x, 0x80 ≤ 0x80 ||| x % 64 ∧ 0x80 ||| x % 64 < 0xc0 := by
    intro x
    have hlt : x % 64 < 64 := Nat.mod_lt _ (by decide)
    rw [(marks _).1 hlt]
    omega
  rw [numbers_utf8EncodeChar] at h
  unfold encodePoint at h
  simp only [and_0x3f] at h
  split_ifs at h <;> cases h <;> simp [h80]

/-- no sequence begins with such a byte, and the decoder skips it as well -/
theorem continuation_other {b : ℕ} (hb : 0x80 ≤ b ∧ b < 0xc0) (rest : List ℕ) :
    nextChar (b :: rest) = none ∧ isLead b = false := by
  cases front (by omega : b < 256) rest with
  | ascii hlt => omega
  | whole hlead => exact absurd (isLead_iff.1 hlead) (by omega)
  | cut hlead => exact absurd (isLead_iff.1 hlead) (by omega)
  | other hge hlead htakes hdecode hnext => exact ⟨hnext, hlead⟩

theorem skip_tail {xs : List ℕ} (hxs : ∀ b ∈ xs, 0x80 ≤ b ∧ b < 0xc0) (i : ℕ) (rest : List ℕ) :
    standing i (xs ++ rest) = standing (i + xs.length) rest ∧ leadsOk (xs ++ rest) = leadsOk rest := by
  induction xs generalizing i with
  | nil => exact ⟨rfl, rfl⟩
  | cons b xs ih =>
    obtain ⟨hnext, hlead⟩ := continuation_other (hxs b List.mem_cons_self) (xs ++ rest)
    obtain ⟨h1, h2⟩ := ih (fun x hx => hxs x (List.mem_cons_of_mem _ hx)) (i + 1)
    rw [List.cons_append, standing, leadsOk, hnext, hlead, List.length_cons, Nat.add_comm xs.length 1, ← Nat.add_assoc]
    exact ⟨h1, h2⟩

theorem standing_place {i : ℕ} {bytes : List ℕ} : ∀ t ∈ standing i bytes, i ≤ t.place := by
  induction bytes generalizing i with
  | nil => exact nofun
  | cons b rest ih =>
    intro t ht
    rw [standing, List.mem_append] at ht
    rcases ht with ht | ht
    · obtain ⟨c, -, rfl⟩ := Option.map_eq_some_iff.1 (Option.mem_toList.1 ht)
      exact le_rfl
    · exact Nat.le_of_succ_le (ih t ht)

/-- whether there is a sequence does not depend on where the bytes begin -/
theorem standing_isEmpty (i j : ℕ) (bytes : List ℕ) : (standing i bytes).isEmpty = (standing j bytes).isEmpty := by
  induction bytes generalizing i j with
  | nil => rfl
  | cons b rest ih =>
    rw [standing, standing]
    cases nextChar (b :: rest) with
    | none => exact ih (i + 1) (j + 1)
    | some c => rfl

/-! ## What is skipped -/

/-- the sequences are what is read exactly when no lead byte absorbs anything else -/
theorem taken_iff {bytes : List ℕ} (hb : ∀ b ∈ bytes, b < 256) (i : ℕ) :
    takes i bytes = standing i bytes ↔ leadsOk bytes = true := by
  induction hn : bytes.length using Nat.strong_induction_on generalizing i bytes with
  | _ n ih =>
    cases bytes with
    | nil => exact iff_of_true rfl rfl
    | cons lead rest =>
      have hrest : ∀ b ∈ rest, b < 256 := fun b h => hb b (List.mem_cons_of_mem _ h)
      have hstep := fun i => @ih rest.length (by rw [← hn]; simp) rest hrest i rfl
      cases front (hb lead List.mem_cons_self) rest with
      | ascii hlt htakes hdecode hnext =>
        obtain ⟨c, hc, hchar⟩ := nextChar_ascii hlt rest
        have hlead : isLead lead = false := by
          rw [Bool.eq_false_iff]
          exact fun h => absurd (isLead_iff.1 h) (by omega)
        rw [htakes, standing, hc, leadsOk, hlead, Option.map_some, hchar]
        exact List.cons_inj_right _ |>.trans (hstep (i + 1))
      | whole hlead xs rest' p hsplit hlen htakes hdecode hnext =>
        rw [htakes, standing, leadsOk, hlead, hnext]
        cases hc : charOf p (lead :: xs) with
        | none =>
          -- the lead byte absorbs bytes that are no sequence
          refine iff_of_false ?_ ?_
          · intro h
            have hmem : (⟨i, lead :: xs, codeUnits p⟩ : Taken) ∈ standing (i + 1) rest := by
              rw [show standing (i + 1) rest = _ from h.symm]
              exact List.mem_cons_self
            exact absurd (standing_place _ hmem) (by simp)
          · have : extra lead ≤ rest.length := by
              rw [hsplit, List.length_append, hlen]
              omega
            simp [not_lt.2 this]
        | some c =>
          obtain ⟨hp, hbytes⟩ := charOf_eq_some.1 hc
          obtain ⟨h1, h2⟩ := skip_tail (tail_bytes hbytes) (i + 1) rest'
          have htaken : Taken.ofChar i c = ⟨i, lead :: xs, codeUnits p⟩ := by rw [Taken.ofChar, hbytes, hp]
          have hlt : rest'.length < n := by
            rw [← hn, hsplit, List.length_cons, List.length_append]
            omega
          have hrec := @ih rest'.length hlt rest' (fun b h => hrest b (hsplit ▸ List.mem_append_right _ h))
            (i + 1 + xs.length) rfl
          rw [hsplit, h1, h2, Option.map_some, htaken]
          exact List.cons_inj_right _ |>.trans hrec
      | cut hlead hlen htakes hdecode hnext =>
        rw [htakes, standing, leadsOk, hlead, hnext, Option.isNone_none, Bool.and_self, if_pos rfl, decide_eq_true hlen,
          Bool.true_and, standing_isEmpty 0 (i + 1) rest, List.isEmpty_iff, eq_comm]
        rfl
      | other hge hlead htakes hdecode hnext =>
        rw [htakes, standing, leadsOk, hlead, hnext]
        exact hstep (i + 1)

theorem mem_standing {i : ℕ} {bytes : List ℕ} {t : Taken} (ht : t ∈ standing i bytes) : ∃ j c, t = Taken.ofChar j c := by
  induction bytes generalizing i with
  | nil => cases ht
  | cons b rest ih =>
    rw [standing, List.mem_append] at ht
    rcases ht with ht | ht
    · obtain ⟨c, -, rfl⟩ := Option.map_eq_some_iff.1 (Option.mem_toList.1 ht)
      exact ⟨i, c, rfl⟩
    · exact ih ht

/-- a character is found where its bytes stand -/
theorem ofChar_standing {bytes : List ℕ} (hb : ∀ b ∈ bytes, b < 256) (i j : ℕ) (c : Char) :
    Taken.ofChar j c ∈ standing i bytes ↔ i ≤ j ∧ numbers (String.utf8EncodeChar c) <+: bytes.drop (j - i) := by
  induction bytes generalizing i with
  | nil =>
    have hne : numbers (String.utf8EncodeChar c) ≠ [] := by
      intro hnil
      have hfound := nextChar_encoded c []
      rw [hnil] at hfound
      cases hfound
    simp [standing, hne]
  | cons b rest ih =>
    have hrest := ih (fun x hx => hb x (List.mem_cons_of_mem _ hx)) (i + 1)
    rw [standing, List.mem_append, hrest, Option.mem_toList, Option.map_eq_some_iff]
    rcases Nat.lt_trichotomy i j with hij | rfl | hij
    · have hdrop : (b :: rest).drop (j - i) = rest.drop (j - (i + 1)) := by
        rw [show j - i = (j - (i + 1)) + 1 by omega, List.drop_succ_cons]
      rw [hdrop]
      constructor
      · rintro (⟨c', -, hc'⟩ | ⟨-, h⟩)
        · exact absurd (congrArg Taken.place hc') (Nat.ne_of_lt hij)
        · exact ⟨hij.le, h⟩
      · rintro ⟨-, h⟩
        exact Or.inr ⟨hij, h⟩
    · rw [Nat.sub_self, List.drop_zero, ← nextChar_iff hb]
      constructor
      · rintro (⟨c', hnext, hc'⟩ | ⟨hlt, -⟩)
        · have hbytes := congrArg Taken.bytes hc'
          refine ⟨le_rfl, (nextChar_iff hb).2 ?_⟩
          rw [show numbers (String.utf8EncodeChar c) = numbers (String.utf8EncodeChar c') from hbytes.symm]
          exact (nextChar_iff hb).1 hnext
        · exact absurd hlt (Nat.not_succ_le_self i)
      · rintro ⟨-, hnext⟩
        exact Or.inl ⟨c, hnext, rfl⟩
    · refine iff_of_false ?_ fun h => absurd h.1 (by omega)
      rintro (⟨c', -, hc'⟩ | ⟨hlt, -⟩)
      · exact absurd (congrArg Taken.place hc') (by change i ≠ j; omega)
      · omega

/-- an ASCII byte is found at its place -/
theorem ascii_standing {b : ℕ} (h : b < 0x80) (i : ℕ) (pre post : List ℕ) :
    ⟨i + pre.length, [b], [fromCharCode b]⟩ ∈ standing i (pre ++ b :: post) := by
  induction pre generalizing i with
  | nil =>
    obtain ⟨c, hc, hchar⟩ := nextChar_ascii h post
    rw [List.nil_append, standing, hc, Option.map_some, hchar]
    exact List.mem_cons_self
  | cons x pre ih =>
    have hrest := ih (i + 1)
    rw [List.cons_append, standing, List.length_cons, Nat.add_comm pre.length 1, ← Nat.add_assoc]
    exact List.mem_append_right _ hrest

/-- a unit below 0x80 stands for an ASCII byte -/
theorem ascii_units {t : Taken} {i : ℕ} {bytes : List ℕ} (ht : t ∈ standing i bytes) {u : UInt16} (hu : u ∈ t.units)
    (hlt : u.toNat < 0x80) : t.bytes = [u.toNat] := by
  obtain ⟨j, c, rfl⟩ := mem_standing ht
  have hc : c.toNat = u.toNat := mem_codeUnits (char_toNat_lt c) hu (by omega)
  have hbytes : numbers (String.utf8EncodeChar c) = [u.toNat] := by
    rw [numbers_utf8EncodeChar, hc, encodePoint, if_pos hlt]
  exact hbytes

theorem numbers_lt (bytes : List UInt8) : ∀ b ∈ numbers bytes, b < 256 := by
  intro b hb
  obtain ⟨x, -, rfl⟩ := List.mem_map.1 hb
  exact x.toNat_lt

/-- **Invalid bytes are skipped exactly when** the first lead byte that begins no well-formed sequence, if there is one,
announces more bytes than are left, and no well-formed sequence is left either. -/
theorem skips_iff (bytes : List UInt8) : Skips (numbers bytes) ↔ leadsOk (numbers bytes) = true := by
  have hlt := numbers_lt bytes
  rw [← taken_iff hlt 0]
  constructor
  · exact Skips.taken
  · intro h
    refine ⟨h, fun i c => ?_, ?_, ?_, ?_⟩
    · rw [h, ofChar_standing hlt, Nat.sub_zero]
      exact and_iff_right (Nat.zero_le i)
    · rw [← h, takes_units 0 hlt]
    · intro pre b post hbytes hb
      have hmem := ascii_standing hb 0 pre post
      rw [Nat.zero_add, ← hbytes] at hmem
      rw [h]
      exact hmem
    · intro t ht u hu hult
      rw [h] at ht
      exact ascii_units ht hu hult

/-- **A line break is absorbed**: the byte E9 (an é in another encoding) takes the line break and the letter after it. -/
theorem absorbed : ¬ ∀ bytes : List UInt8, Skips (numbers bytes) := by
  intro h
  have htaken := (h [0xe9, 0x0a, 0x73, 0x73]).taken
  revert htaken
  decide

end Utf8Skip

end ShadowsocksOhos
