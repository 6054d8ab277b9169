/-
Length-prefixed formats. `field w` reads a big-endian length of `w` bytes and that many bytes after it, `whole w` does
so and wants nothing to be left, `items t w` reads fields with a tag of `t` bytes in front of each, to the end.
-/
import Mathlib.Tactic

namespace Prefixed

/-- the number that big-endian bytes spell -/
def number (bytes : List UInt8) : ℕ := bytes.foldl (fun n b => n * 256 + b.toNat) 0

/-- the first `n` bytes and the others -/
def fixed (n : ℕ) (bytes : List UInt8) : Option (List UInt8 × List UInt8) :=
  if n ≤ bytes.length then some (bytes.take n, bytes.drop n) else none

/-- the bytes of a field and what follows it -/
def field (w : ℕ) (bytes : List UInt8) : Option (List UInt8 × List UInt8) :=
  (fixed w bytes).bind fun x => fixed (number x.1) x.2

/-- the bytes of a field that is all there is -/
def whole (w : ℕ) (bytes : List UInt8) : Option (List UInt8) :=
  (field w bytes).bind fun x => if x.2 = [] then some x.1 else none

theorem fixed_append {n : ℕ} {a : List UInt8} (h : a.length = n) (rest : List UInt8) :
    fixed n (a ++ rest) = some (a, rest) := by
  subst h
  simp [fixed]

theorem fixed_eq_some {n : ℕ} {bytes a rest : List UInt8} :
    fixed n bytes = some (a, rest) ↔ bytes = a ++ rest ∧ a.length = n := by
  constructor
  · intro h
    unfold fixed at h
    split_ifs at h with hn
    obtain ⟨rfl, rfl⟩ := Prod.mk.inj (Option.some.inj h)
    exact ⟨(List.take_append_drop n bytes).symm, List.length_take_of_le hn⟩
  · rintro ⟨rfl, h⟩
    exact fixed_append h rest

/-- a field is a length and its bytes -/
theorem field_eq_some {w : ℕ} {bytes body rest : List UInt8} :
    field w bytes = some (body, rest) ↔
      ∃ len, bytes = len ++ (body ++ rest) ∧ len.length = w ∧ number len = body.length := by
  unfold field
  rw [Option.bind_eq_some_iff]
  constructor
  · rintro ⟨⟨len, more⟩, hlen, hbody⟩
    obtain ⟨rfl, hw⟩ := fixed_eq_some.1 hlen
    obtain ⟨rfl, hn⟩ := fixed_eq_some.1 hbody
    exact ⟨len, rfl, hw, hn.symm⟩
  · rintro ⟨len, rfl, hw, hn⟩
    exact ⟨(len, body ++ rest), fixed_append hw _, fixed_append hn.symm rest⟩

theorem whole_eq_some {w : ℕ} {bytes body : List UInt8} :
    whole w bytes = some body ↔ ∃ len, bytes = len ++ body ∧ len.length = w ∧ number len = body.length := by
  unfold whole
  rw [Option.bind_eq_some_iff]
  constructor
  · rintro ⟨⟨body', rest⟩, hfield, hend⟩
    split_ifs at hend with hrest
    obtain rfl := Option.some.inj hend
    obtain ⟨len, hbytes, hw, hn⟩ := field_eq_some.1 hfield
    dsimp only at hrest
    rw [hrest, List.append_nil] at hbytes
    exact ⟨len, hbytes, hw, hn⟩
  · rintro ⟨len, rfl, hw, hn⟩
    exact ⟨(body, []), field_eq_some.2 ⟨len, by rw [List.append_nil], hw, hn⟩, if_pos rfl⟩

theorem field_append {w : ℕ} {len body : List UInt8} (hw : len.length = w) (hn : number len = body.length)
    (rest : List UInt8) : field w (len ++ (body ++ rest)) = some (body, rest) :=
  field_eq_some.2 ⟨len, rfl, hw, hn⟩

theorem whole_append {w : ℕ} {len body : List UInt8} (hw : len.length = w) (hn : number len = body.length) :
    whole w (len ++ body) = some body :=
  whole_eq_some.2 ⟨len, rfl, hw, hn⟩

/-! ## Tagged fields -/

/-- one tagged field and what follows it -/
def item (t w : ℕ) (bytes : List UInt8) : Option ((List UInt8 × List UInt8) × List UInt8) :=
  (fixed t bytes).bind fun x => (field w x.2).map fun y => ((x.1, y.1), y.2)

theorem item_eq_some {t w : ℕ} {bytes tag body rest : List UInt8} :
    item t w bytes = some ((tag, body), rest) ↔ ∃ len, bytes = tag ++ (len ++ (body ++ rest)) ∧ tag.length = t ∧
      len.length = w ∧ number len = body.length := by
  unfold item
  rw [Option.bind_eq_some_iff]
  constructor
  · rintro ⟨⟨tag', more⟩, htag, hmap⟩
    obtain ⟨⟨body', rest'⟩, hfield, heq⟩ := Option.map_eq_some_iff.1 hmap
    simp only [Prod.mk.injEq] at heq
    obtain ⟨⟨rfl, rfl⟩, rfl⟩ := heq
    obtain ⟨rfl, ht⟩ := fixed_eq_some.1 htag
    obtain ⟨len, rfl, hw, hn⟩ := field_eq_some.1 hfield
    exact ⟨len, rfl, ht, hw, hn⟩
  · rintro ⟨len, rfl, ht, hw, hn⟩
    exact ⟨(tag, len ++ (body ++ rest)), fixed_append ht _, by rw [field_append hw hn, Option.map_some]⟩

/-- tagged fields to the end, with a bound on how many there are -/
def itemsWithin (t w : ℕ) : ℕ → List UInt8 → Option (List (List UInt8 × List UInt8))
  | _, [] => some []
  | 0, _ :: _ => none
  | n + 1, b :: bytes => (item t w (b :: bytes)).bind fun x => (itemsWithin t w n x.2).map (x.1 :: ·)

/-- tagged fields to the end; none of them is without bytes, as a tag is not -/
def items (t w : ℕ) (bytes : List UInt8) : Option (List (List UInt8 × List UInt8)) := itemsWithin t w bytes.length bytes

theorem item_append {t w : ℕ} {tag len body : List UInt8} (ht : tag.length = t) (hw : len.length = w)
    (hn : number len = body.length) (rest : List UInt8) :
    item t w (tag ++ (len ++ (body ++ rest))) = some ((tag, body), rest) :=
  item_eq_some.2 ⟨len, rfl, ht, hw, hn⟩

/-- an item takes its tag off -/
theorem length_of_item {t w : ℕ} {bytes rest : List UInt8} {x : List UInt8 × List UInt8}
    (h : item t w bytes = some (x, rest)) : t + rest.length ≤ bytes.length := by
  obtain ⟨len, rfl, ht, -, -⟩ := item_eq_some.1 h
  simp only [List.length_append]
  omega

/-- a bound that is high enough does not matter -/
theorem itemsWithin_eq {t : ℕ} (ht : 0 < t) (w : ℕ) {n m : ℕ} {bytes : List UInt8} (hn : bytes.length ≤ n)
    (hm : bytes.length ≤ m) : itemsWithin t w n bytes = itemsWithin t w m bytes := by
  induction n generalizing m bytes with
  | zero =>
    obtain rfl : bytes = [] := List.length_eq_zero_iff.1 (Nat.le_zero.1 hn)
    rw [itemsWithin, itemsWithin]
  | succ n ih =>
    rcases bytes with _ | ⟨b, bytes⟩
    · rw [itemsWithin, itemsWithin]
    obtain ⟨m, rfl⟩ : ∃ k, m = k + 1 := ⟨m - 1, by simp only [List.length_cons] at hm; omega⟩
    rw [itemsWithin, itemsWithin]
    cases hitem : item t w (b :: bytes) with
    | none => rfl
    | some x =>
      have hlen := length_of_item hitem
      simp only [List.length_cons] at hlen hn hm
      have hrest : itemsWithin t w n x.2 = itemsWithin t w m x.2 := ih (by omega) (by omega)
      rw [Option.bind_some, Option.bind_some, hrest]

@[simp] theorem items_nil (t w : ℕ) : items t w [] = some [] := rfl

theorem items_append {t w : ℕ} (hpos : 0 < t) {tag len body : List UInt8} (ht : tag.length = t) (hw : len.length = w)
    (hn : number len = body.length) (rest : List UInt8) :
    items t w (tag ++ (len ++ (body ++ rest))) = (items t w rest).map ((tag, body) :: ·) := by
  have hitem := item_append ht hw hn rest
  have hlen := length_of_item hitem
  unfold items
  obtain ⟨b, bytes, hb⟩ : ∃ b bytes, tag ++ (len ++ (body ++ rest)) = b :: bytes :=
    List.exists_cons_of_ne_nil fun h0 => by rw [h0, List.length_nil] at hlen; omega
  rw [hb] at hitem hlen ⊢
  simp only [List.length_cons] at hlen
  rw [List.length_cons, itemsWithin, hitem, Option.bind_some,
    itemsWithin_eq hpos w (show rest.length ≤ bytes.length by omega) le_rfl]

/-- tagged fields as bytes; `len` writes a length -/
def encodeItems (len : ℕ → List UInt8) (its : List (List UInt8 × List UInt8)) : List UInt8 :=
  its.flatMap fun x => x.1 ++ (len x.2.length ++ x.2)

/-- tagged fields are read back when their lengths are -/
theorem items_encodeItems {t w : ℕ} (hpos : 0 < t) {len : ℕ → List UInt8} {its : List (List UInt8 × List UInt8)}
    (htag : ∀ x ∈ its, x.1.length = t)
    (hlen : ∀ x ∈ its, (len x.2.length).length = w ∧ number (len x.2.length) = x.2.length) :
    items t w (encodeItems len its) = some its := by
  induction its with
  | nil => rfl
  | cons x its ih =>
    obtain ⟨hw, hn⟩ := hlen x List.mem_cons_self
    have hrest := ih (fun y hy => htag y (List.mem_cons_of_mem _ hy)) (fun y hy => hlen y (List.mem_cons_of_mem _ hy))
    have hshape : encodeItems len (x :: its) = x.1 ++ (len x.2.length ++ (x.2 ++ encodeItems len its)) := by
      simp only [encodeItems, List.flatMap_cons, List.append_assoc]
    rw [hshape, items_append hpos (htag x List.mem_cons_self) hw hn, hrest, Option.map_some]

end Prefixed
