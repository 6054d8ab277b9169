/-
Buffers with one owner each. An owner makes a buffer, hands it on to another owner or frees it; a pointer to a buffer that
was freed leads nowhere from then on. Buffers have numbers that are never used again, so a pointer tells the buffer that it
was made for from a later one at the same address.

- `Owned`: every buffer that is alive has one owner, and what an owner holds is alive.
- `Owned.alloc`, `Owned.drop`, `Owned.move`, `Owned.replace`: making, freeing and handing on keep it. An owner never frees
a buffer twice.
- `Owned.read_alloc`, `Owned.read_drop`: what one owner does leaves the buffers of the others as they are.
-/
import Mathlib.Tactic

/-- `cells`: what the buffers hold that were made so far, by number; nothing when it was freed -/
structure Buffers (β : Type*) where
  cells : List (Option β)

namespace Buffers

variable {β : Type*}

def empty : Buffers β := ⟨[]⟩

/-- what a pointer leads to -/
def get (b : Buffers β) (p : ℕ) : Option β := (b.cells[p]?).join

def alloc (b : Buffers β) (x : β) : Buffers β × ℕ := (⟨b.cells ++ [some x]⟩, b.cells.length)

/-- freeing what is not alive is an error -/
def free (b : Buffers β) (p : ℕ) : Option (Buffers β) := if (b.get p).isSome then some ⟨b.cells.set p none⟩ else none

/-- free what an owner holds, if it holds something -/
def drop (b : Buffers β) : Option ℕ → Option (Buffers β)
  | none => some b
  | some p => b.free p

variable {b b' : Buffers β} {x : β} {p q : ℕ}

theorem lt_of_get (h : (b.get p).isSome) : p < b.cells.length := by
  by_contra hn
  simp [get, List.getElem?_eq_none (Nat.le_of_not_lt hn)] at h

/-! ## Making and freeing -/

theorem get_alloc_self : (b.alloc x).1.get (b.alloc x).2 = some x := by
  simp [alloc, get]

theorem get_alloc_of_ne (h : p ≠ (b.alloc x).2) : (b.alloc x).1.get p = b.get p := by
  have hne : p ≠ b.cells.length := h
  rcases Nat.lt_or_gt_of_ne hne with hlt | hgt
  · simp [alloc, get, List.getElem?_append_left hlt]
  · have hlen : (b.cells ++ [some x]).length ≤ p := by simp; omega
    simp [alloc, get, List.getElem?_eq_none hlen, List.getElem?_eq_none hgt.le]

theorem alloc_ne (h : (b.get p).isSome) : p ≠ (b.alloc x).2 := (lt_of_get h).ne

theorem free_eq (h : b.free p = some b') : (b.get p).isSome ∧ b' = ⟨b.cells.set p none⟩ := by
  unfold free at h
  split at h
  · rename_i hlive
    cases h
    exact ⟨hlive, rfl⟩
  · cases h

theorem get_free_self (h : b.free p = some b') : b'.get p = none := by
  obtain ⟨hlive, rfl⟩ := free_eq h
  simp [get, lt_of_get hlive]

theorem get_free_of_ne (h : b.free p = some b') (hne : q ≠ p) : b'.get q = b.get q := by
  obtain ⟨-, rfl⟩ := free_eq h
  simp [get, List.getElem?_set_ne hne.symm]

/-- what is not held by the owner stays -/
theorem get_drop_of_ne {o : Option ℕ} (h : b.drop o = some b') (hne : o ≠ some q) : b'.get q = b.get q := by
  cases o with
  | none => cases h; rfl
  | some p => exact get_free_of_ne h fun he => hne (congrArg some he.symm)

theorem get_drop_self (h : b.drop (some p) = some b') : b'.get p = none := get_free_self h

/-- freed buffers stay freed -/
theorem get_alloc_of_none (hlt : p < b.cells.length) (h : b.get p = none) : (b.alloc x).1.get p = none := by
  rw [get_alloc_of_ne hlt.ne, h]

theorem get_drop_of_none {o : Option ℕ} (h : b.drop o = some b') (hp : b.get p = none) : b'.get p = none := by
  by_cases ho : o = some p
  · subst ho
    exact get_drop_self h
  · rw [get_drop_of_ne h ho, hp]

theorem length_alloc : (b.alloc x).1.cells.length = b.cells.length + 1 := by
  simp [alloc]

theorem length_drop {o : Option ℕ} (h : b.drop o = some b') : b'.cells.length = b.cells.length := by
  cases o with
  | none => cases h; rfl
  | some p =>
    obtain ⟨-, rfl⟩ := free_eq h
    exact List.length_set

/-! ## Owners -/

variable {ι : Type*}

/-- `holds`: the buffer of each owner -/
structure Owned (b : Buffers β) (holds : ι → Option ℕ) : Prop where
  alive : ∀ i p, holds i = some p → (b.get p).isSome
  held : ∀ p, (b.get p).isSome → ∃ i, holds i = some p
  unique : ∀ i j p, holds i = some p → holds j = some p → i = j

variable {holds : ι → Option ℕ} {i j : ι}

theorem owned_empty : Owned (empty : Buffers β) fun _ : ι => none :=
  ⟨nofun, fun p h => by simp [empty, get] at h, nofun⟩

/-! ### Reading -/

/-- the text of an owner, when another one makes a buffer -/
theorem Owned.read_alloc (h : Owned b holds) (i : ι) (x : β) :
    (holds i).bind (b.alloc x).1.get = (holds i).bind b.get := by
  cases hi : holds i with
  | none => rfl
  | some p => exact get_alloc_of_ne (alloc_ne (h.alive i p hi))

/-- the text of an owner, when another one frees its buffer -/
theorem Owned.read_drop (h : Owned b holds) (hb : b.drop (holds j) = some b') (hij : i ≠ j) :
    (holds i).bind b'.get = (holds i).bind b.get := by
  cases hi : holds i with
  | none => rfl
  | some p => exact get_drop_of_ne hb fun hj => hij (h.unique i j p hi hj)

/-! ### Making, freeing, handing on -/

variable [DecidableEq ι]

/-- an owner without a buffer makes one -/
theorem Owned.alloc (h : Owned b holds) (hi : holds i = none) (x : β) :
    Owned (b.alloc x).1 (Function.update holds i (some (b.alloc x).2)) := by
  have hold : ∀ j p, holds j = some p → p ≠ (b.alloc x).2 := fun j p hj => alloc_ne (h.alive j p hj)
  refine ⟨fun j p hj => ?_, fun p hp => ?_, fun j k p hj hk => ?_⟩
  · by_cases hji : j = i
    · subst hji
      rw [Function.update_self] at hj
      cases hj
      rw [get_alloc_self]
      rfl
    · rw [Function.update_of_ne hji] at hj
      rw [get_alloc_of_ne (hold j p hj)]
      exact h.alive j p hj
  · by_cases hpn : p = (b.alloc x).2
    · exact ⟨i, by rw [Function.update_self, hpn]⟩
    · rw [get_alloc_of_ne hpn] at hp
      obtain ⟨j, hj⟩ := h.held p hp
      have hji : j ≠ i := by
        rintro rfl
        rw [hi] at hj
        cases hj
      exact ⟨j, by rw [Function.update_of_ne hji, hj]⟩
  · by_cases hji : j = i <;> by_cases hki : k = i
    · rw [hji, hki]
    · rw [hji, Function.update_self] at hj
      rw [Function.update_of_ne hki] at hk
      cases hj
      exact absurd rfl (hold k _ hk)
    · rw [hki, Function.update_self] at hk
      rw [Function.update_of_ne hji] at hj
      cases hk
      exact absurd rfl (hold j _ hj)
    · rw [Function.update_of_ne hji] at hj
      rw [Function.update_of_ne hki] at hk
      exact h.unique j k p hj hk

/-- an owner frees its buffer, which nobody else holds -/
theorem Owned.drop (h : Owned b holds) (i : ι) :
    ∃ b', b.drop (holds i) = some b' ∧ Owned b' (Function.update holds i none) := by
  have hlive : ∃ b', b.drop (holds i) = some b' := by
    cases hi : holds i with
    | none => exact ⟨b, rfl⟩
    | some p => exact ⟨⟨b.cells.set p none⟩, if_pos (h.alive i p hi)⟩
  obtain ⟨b', hb⟩ := hlive
  refine ⟨b', hb, fun j p hj => ?_, fun p hp => ?_, fun j k p hj hk => ?_⟩
  · by_cases hji : j = i
    · rw [hji, Function.update_self] at hj
      cases hj
    · rw [Function.update_of_ne hji] at hj
      rw [get_drop_of_ne hb fun hi => hji (h.unique j i p hj hi)]
      exact h.alive j p hj
  · have hpi : holds i ≠ some p := by
      intro hi
      rw [hi] at hb
      rw [get_drop_self hb] at hp
      cases hp
    rw [get_drop_of_ne hb hpi] at hp
    obtain ⟨j, hj⟩ := h.held p hp
    have hji : j ≠ i := by
      rintro rfl
      exact hpi hj
    exact ⟨j, by rw [Function.update_of_ne hji, hj]⟩
  · by_cases hji : j = i
    · rw [hji, Function.update_self] at hj
      cases hj
    · by_cases hki : k = i
      · rw [hki, Function.update_self] at hk
        cases hk
      · rw [Function.update_of_ne hji] at hj
        rw [Function.update_of_ne hki] at hk
        exact h.unique j k p hj hk

/-- an owner hands its buffer on to one that has none -/
theorem Owned.move (h : Owned b holds) (hj : holds j = none) :
    Owned b (Function.update (Function.update holds j (holds i)) i none) := by
  -- who holds a buffer after it held it before, or has it from `i`
  have hback : ∀ k p, Function.update (Function.update holds j (holds i)) i none k = some p →
      k = j ∧ holds i = some p ∨ k ≠ i ∧ k ≠ j ∧ holds k = some p := by
    intro k p hk
    by_cases hki : k = i
    · rw [hki, Function.update_self] at hk
      cases hk
    · rw [Function.update_of_ne hki] at hk
      by_cases hkj : k = j
      · rw [hkj, Function.update_self] at hk
        exact Or.inl ⟨hkj, hk⟩
      · rw [Function.update_of_ne hkj] at hk
        exact Or.inr ⟨hki, hkj, hk⟩
  refine ⟨fun k p hk => ?_, fun p hp => ?_, fun k l p hk hl => ?_⟩
  · rcases hback k p hk with ⟨-, hi⟩ | ⟨-, -, hk⟩
    · exact h.alive i p hi
    · exact h.alive k p hk
  · obtain ⟨k, hk⟩ := h.held p hp
    have hkj : k ≠ j := by
      rintro rfl
      rw [hj] at hk
      cases hk
    by_cases hki : k = i
    · subst hki
      exact ⟨j, by rw [Function.update_of_ne hkj.symm, Function.update_self, hk]⟩
    · exact ⟨k, by rw [Function.update_of_ne hki, Function.update_of_ne hkj, hk]⟩
  · rcases hback k p hk with ⟨rfl, hi⟩ | ⟨hki, -, hk'⟩ <;> rcases hback l p hl with ⟨hlj, hi'⟩ | ⟨hli, -, hl'⟩
    · exact hlj.symm
    · exact absurd (h.unique l i p hl' hi) hli
    · exact absurd (h.unique k i p hk' hi') hki
    · exact h.unique k l p hk' hl'

/-- an owner frees its buffer, and takes that of another owner in its place -/
theorem Owned.replace (h : Owned b holds) (hij : i ≠ j) (hb : b.drop (holds j) = some b') :
    Owned b' (Function.update (Function.update holds j (holds i)) i none) := by
  obtain ⟨b'', hb'', howned⟩ := h.drop j
  cases hb.symm.trans hb''
  have hmove := howned.move (i := i) (Function.update_self j none holds)
  rwa [Function.update_idem, Function.update_of_ne hij] at hmove

end Buffers
