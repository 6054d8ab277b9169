/-
The bridge between the app and the core (`napi_init.cpp`). A string of the app is copied as UTF-8, passed on as a C string,
which ends at the first NUL, and taken by the core if it is UTF-8 (`cstr_arg`); a message of the core goes the other way. What
the engine does is given by its documentation: the conversion of strings without unpaired surrogates (`Napi.Documented`).
- `arg_text`: a text arrives up to its first NUL character.
- `arg_stringify`: what `JSON.stringify` makes of any value arrives whole.
- `lastError_cString`: a message of the core comes back whole.
-/
import ShadowsocksOhos.App.Dialable
import ShadowsocksOhos.App.Stringify
import ShadowsocksOhos.Ffi.Threads

namespace ShadowsocksOhos

/-! ## Texts as strings -/

/-- the halves of a surrogate pair -/
theorem toNat_high {n : ℕ} (h : n < 0x110000) :
    (fromCharCode (0xd800 + ((n - 0x10000) >>> 10))).toNat = 0xd800 + (n - 0x10000) / 1024 := by
  rw [Nat.shiftRight_eq_div_pow, toNat_fromCharCode (by omega)]

theorem toNat_low (n : ℕ) : (fromCharCode (0xdc00 + ((n - 0x10000) &&& 0x3ff))).toNat = 0xdc00 + (n - 0x10000) % 1024 := by
  rw [show (0x3ff : ℕ) = 2 ^ 10 - 1 from rfl, Nat.and_two_pow_sub_one_eq_mod, toNat_fromCharCode (by omega)]

theorem codeUnits_append_inj {c d : Char} {s t : JsString} (h : codeUnits c.toNat ++ s = codeUnits d.toNat ++ t) :
    c = d ∧ s = t := by
  have hc := c.valid
  have hd := d.valid
  have hcn : c.val.toNat = c.toNat := rfl
  have hdn : d.val.toNat = d.toNat := rfl
  have hchar : c.toNat = d.toNat → c = d := fun h => Char.ext (UInt32.toNat_inj.1 h)
  unfold UInt32.isValidChar Nat.isValidChar at hc hd
  rw [hcn] at hc
  rw [hdn] at hd
  unfold codeUnits at h
  -- one unit is no surrogate, and two begin with one
  split_ifs at h with h1 h2 h2
  · obtain ⟨hu, hst⟩ := List.cons.inj h
    have hn := congrArg UInt16.toNat hu
    rw [toNat_fromCharCode h1, toNat_fromCharCode h2] at hn
    exact ⟨hchar hn, hst⟩
  · have hn := congrArg UInt16.toNat (List.cons.inj h).1
    rw [toNat_fromCharCode h1, toNat_high (by omega)] at hn
    omega
  · have hn := congrArg UInt16.toNat (List.cons.inj h).1
    rw [toNat_high (by omega), toNat_fromCharCode h2] at hn
    omega
  · obtain ⟨hu, hrest⟩ := List.cons.inj h
    obtain ⟨hv, hst⟩ := List.cons.inj hrest
    have hn := congrArg UInt16.toNat hu
    have hm := congrArg UInt16.toNat hv
    rw [toNat_high (by omega), toNat_high (by omega)] at hn
    rw [toNat_low, toNat_low] at hm
    exact ⟨hchar (by omega), hst⟩

theorem utf16_injective : Function.Injective utf16 := by
  intro s
  induction s with
  | nil =>
    intro t h
    cases t with
    | nil => rfl
    | cons d t =>
      rw [utf16_cons] at h
      exact absurd (List.append_eq_nil_iff.1 h.symm).1 (codeUnits_ne_nil _)
  | cons c s ih =>
    intro t h
    cases t with
    | nil =>
      rw [utf16_cons] at h
      exact absurd (List.append_eq_nil_iff.1 h).1 (codeUnits_ne_nil _)
    | cons d t =>
      rw [utf16_cons, utf16_cons] at h
      obtain ⟨hcd, hst⟩ := codeUnits_append_inj h
      rw [hcd, ih hst]

namespace Bridge

/-! ## C strings -/

/-- the bytes that a C string shows: those before the first NUL -/
def cStr (bytes : List UInt8) : List UInt8 := bytes.takeWhile (· ≠ 0)

/-- `CStr::to_str`: the text, if the bytes are UTF-8 -/
def toStr (bytes : List UInt8) : Option Text := bytes.toByteArray.utf8Decode?.map Array.toList

theorem toStr_utf8 (t : Text) : toStr (utf8 t) = some t := by
  have h : (utf8 t).toByteArray = t.utf8Encode := rfl
  rw [toStr, h, List.utf8Decode?_utf8Encode]
  simp

/-- only the NUL character has a byte that is NUL -/
theorem zero_notMem {c : Char} (h : c ≠ '\x00') : (0 : UInt8) ∉ String.utf8EncodeChar c := by
  intro hmem
  have hpoint : 0 ∈ encodePoint c.toNat := by
    rw [← numbers_utf8EncodeChar]
    exact List.mem_map_of_mem hmem
  have hzero : c.toNat = 0 := by
    have hlead : ∀ {x y : ℕ}, x ≠ 0 → 0 ≠ x ||| y := fun hx h0 => hx (Nat.or_eq_zero_iff.1 h0.symm).1
    unfold encodePoint at hpoint
    split_ifs at hpoint <;>
      simp only [List.mem_cons, List.not_mem_nil, or_false, hlead (show 0x80 ≠ 0 by decide),
        hlead (show 0xc0 ≠ 0 by decide), hlead (show 0xe0 ≠ 0 by decide), hlead (show 0xf0 ≠ 0 by decide), or_self] at hpoint
    exact hpoint.symm
  exact h (Char.ext (UInt32.toNat_inj.1 hzero))

/-- **A C string ends at the first NUL character** of its text. -/
theorem cStr_utf8 (t : Text) : cStr (utf8 t) = utf8 (t.takeWhile (· ≠ '\x00')) := by
  induction t with
  | nil => rfl
  | cons c t ih =>
    have hcons : utf8 (c :: t) = String.utf8EncodeChar c ++ utf8 t := List.flatMap_cons
    rw [hcons]
    by_cases hc : c = '\x00'
    · rw [hc]
      rfl
    · have hbytes : ∀ b ∈ String.utf8EncodeChar c, decide (b ≠ 0) = true := fun b hb =>
        decide_eq_true fun h => zero_notMem hc (h ▸ hb)
      unfold cStr at ih ⊢
      have hchar : (c :: t).takeWhile (· ≠ '\x00') = c :: t.takeWhile (· ≠ '\x00') :=
        List.takeWhile_cons_of_pos (decide_eq_true hc)
      rw [List.takeWhile_append_of_pos hbytes, ih, hchar]
      exact List.flatMap_cons.symm

/-! ## The engine -/

/-- the conversions of strings between the engine and C -/
structure Napi where
  /-- `napi_get_value_string_utf8` without a buffer: the length in bytes -/
  utf8Length : JsString → ℕ
  /-- with a buffer of this size, which has room for a NUL too: the bytes that are copied -/
  copyUtf8 : JsString → ℕ → List UInt8
  /-- `napi_create_string_utf8`, from the bytes before the NUL -/
  createString : List UInt8 → JsString

/-- the documented behaviour, of strings without unpaired surrogates -/
structure Napi.Documented (n : Napi) : Prop where
  length : ∀ t, n.utf8Length (utf16 t) = (utf8 t).length
  copy : ∀ t size, (utf8 t).length < size → n.copyUtf8 (utf16 t) size = utf8 t
  create : ∀ t, n.createString (utf8 t) = utf16 t

variable (n : Napi) (utf8Error : List UInt8 → Text)

/-- `GetStringArg`: one call for the length, one for the bytes -/
def getStringArg (s : JsString) : List UInt8 :=
  let length := n.utf8Length s
  n.copyUtf8 s (length + 1)

/-- what the core finds behind `c_str()` -/
def arg (s : JsString) : CArg :=
  let bytes := cStr (getStringArg n s)
  match toStr bytes with
  | some t => .text t
  | none => .notUtf8 (utf8Error bytes)

/-- a call of the module `sslocal` -/
inductive JsCall where
  | start (config : JsString)
  | startTunFd (config : JsString) (tunFd : Int)
  | setStatAddress (addr : JsString)
  | stop
  | isRunning

def entryCall : JsCall → EntryCall
  | .start config => .start (arg n utf8Error config)
  | .startTunFd config tunFd => .startTunFd (arg n utf8Error config) tunFd
  | .setStatAddress addr => .setStatAddress (arg n utf8Error addr)
  | .stop => .stop
  | .isRunning => .isRunning

/-- `LastError`; `none` stands for null -/
def lastError (message : Option Text) : Option JsString := message.map fun m => n.createString (cStr (utf8 m))

section Documented

variable {n} (hn : n.Documented)

include hn

/-- **A text arrives up to its first NUL character.** -/
theorem arg_text (t : Text) : arg n utf8Error (utf16 t) = .text (t.takeWhile (· ≠ '\x00')) := by
  have hbytes : getStringArg n (utf16 t) = utf8 t := by
    unfold getStringArg
    rw [hn.length]
    exact hn.copy t _ (Nat.lt_succ_self _)
  unfold arg
  rw [hbytes, cStr_utf8]
  dsimp only
  rw [toStr_utf8]

/-- **What `JSON.stringify` makes of a value arrives whole**, whatever strings are in it. -/
theorem arg_stringify (v : JsValue) :
    ∃ t, utf16 t = Stringify.stringify v ∧ arg n utf8Error (Stringify.stringify v) = .text t := by
  have hclean := Stringify.clean_stringify v
  obtain ⟨t, ht, -⟩ := encode_paired hclean.pairs
  refine ⟨t, ht.symm, ?_⟩
  have hnul : t.takeWhile (· ≠ '\x00') = t := by
    refine List.takeWhile_eq_self_iff.2 fun c hc => decide_eq_true ?_
    rintro rfl
    have hmem : (0 : UInt16) ∈ Stringify.stringify v := by
      rw [ht]
      exact List.mem_flatMap.2 ⟨_, hc, by decide⟩
    exact absurd (hclean.printable 0 hmem) (by decide)
  rw [ht, arg_text utf8Error hn, hnul]

/-- **A message of the core comes back whole.** -/
theorem lastError_cString (message : Text) : lastError n (some (cString message)) = some (utf16 (cString message)) := by
  have hnul : (cString message).takeWhile (· ≠ '\x00') = cString message := by
    refine List.takeWhile_eq_self_iff.2 fun c hc => decide_eq_true ?_
    rintro rfl
    unfold cString at hc
    split_ifs at hc with h
    · cases hc
    · exact h hc
  unfold lastError
  rw [Option.map_some, cStr_utf8, hnul, hn.create]

end Documented

end Bridge

end ShadowsocksOhos
