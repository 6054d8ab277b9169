/-
Maps as lists of entries. A key is looked up from the front; `insert` replaces the first entry of a key in place and
appends a new one, `remove` drops every entry of a key. The laws of `get` hold for every list, whether or not its keys are
distinct; with distinct keys, `get` decides the entries (`perm_of_get`).
-/
import Mathlib.Tactic

namespace Dict

variable {κ ν : Type*} [DecidableEq κ]

def get (k : κ) : List (κ × ν) → Option ν
  | [] => none
  | (k', v) :: m => if k' = k then some v else get k m

def insert (k : κ) (v : ν) : List (κ × ν) → List (κ × ν)
  | [] => [(k, v)]
  | (k', v') :: m => if k' = k then (k, v) :: m else (k', v') :: insert k v m

def remove (k : κ) (m : List (κ × ν)) : List (κ × ν) := m.filter fun e => e.1 ≠ k

@[simp] theorem get_nil (k : κ) : get k ([] : List (κ × ν)) = none := rfl

@[simp] theorem get_insert_self (k : κ) (v : ν) (m : List (κ × ν)) : get k (insert k v m) = some v := by
  induction m with
  | nil => simp [insert, get]
  | cons e m ih =>
    by_cases h : e.1 = k
    · simp [insert, get, h]
    · simp [insert, get, h, ih]

theorem get_insert_of_ne {k k' : κ} (hne : k' ≠ k) (v : ν) (m : List (κ × ν)) :
    get k' (insert k v m) = get k' m := by
  induction m with
  | nil => simp [insert, get, hne.symm]
  | cons e m ih =>
    by_cases h : e.1 = k
    · simp [insert, get, h, hne.symm]
    · by_cases h' : e.1 = k'
      · simp [insert, get, h', hne]
      · simp [insert, get, h, h', ih]

/-- a new key goes to the end -/
theorem insert_new {k : κ} {m : List (κ × ν)} (h : k ∉ m.map Prod.fst) (v : ν) : insert k v m = m ++ [(k, v)] := by
  induction m with
  | nil => rfl
  | cons e m ih =>
    rw [List.map_cons, List.mem_cons, not_or] at h
    unfold insert
    rw [if_neg (Ne.symm h.1), ih h.2, List.cons_append]

theorem mem_insert_keys {k k' : κ} {v : ν} {m : List (κ × ν)} :
    k' ∈ (insert k v m).map Prod.fst ↔ k' = k ∨ k' ∈ m.map Prod.fst := by
  induction m with
  | nil => simp [insert]
  | cons e m ih =>
    by_cases h : e.1 = k
    · simp [insert, h]
    · simp only [insert, h, if_false, List.map_cons, List.mem_cons, ih]
      exact or_left_comm

/-- no key is entered twice -/
theorem nodup_insert {m : List (κ × ν)} (h : (m.map Prod.fst).Nodup) (k : κ) (v : ν) :
    ((insert k v m).map Prod.fst).Nodup := by
  induction m with
  | nil => simp [insert]
  | cons e m ih =>
    obtain ⟨hnotMem, hnodup⟩ := List.nodup_cons.1 h
    by_cases he : e.1 = k
    · rw [insert, if_pos he, List.map_cons, List.nodup_cons]
      exact ⟨he ▸ hnotMem, hnodup⟩
    · rw [insert, if_neg he, List.map_cons, List.nodup_cons, mem_insert_keys, not_or]
      exact ⟨⟨he, hnotMem⟩, ih hnodup⟩

/-- with distinct keys, the entries are what is looked up -/
theorem mem_iff_get {m : List (κ × ν)} (h : (m.map Prod.fst).Nodup) {k : κ} {v : ν} :
    (k, v) ∈ m ↔ get k m = some v := by
  induction m with
  | nil => simp
  | cons e m ih =>
    obtain ⟨hnotMem, hnodup⟩ := List.nodup_cons.1 h
    rw [List.mem_cons, ih hnodup, get]
    by_cases he : e.1 = k
    · rw [if_pos he]
      constructor
      · rintro (rfl | hget)
        · rfl
        · exact absurd (List.mem_map_of_mem ((ih hnodup).2 hget)) (he ▸ hnotMem)
      · intro hv
        exact Or.inl (Prod.ext he.symm (Option.some.inj hv).symm)
    · rw [if_neg he, or_iff_right]
      rintro rfl
      exact he rfl

/-- two maps with the same values have the same entries -/
theorem perm_of_get {m m' : List (κ × ν)} (h : (m.map Prod.fst).Nodup) (h' : (m'.map Prod.fst).Nodup)
    (hget : ∀ k, get k m = get k m') : m.Perm m' := by
  rw [List.perm_ext_iff_of_nodup h.of_map h'.of_map]
  rintro ⟨k, v⟩
  rw [mem_iff_get h, mem_iff_get h', hget]

@[simp] theorem get_remove_self (k : κ) (m : List (κ × ν)) : get k (remove k m) = none := by
  induction m with
  | nil => rfl
  | cons e m ih =>
    by_cases h : e.1 = k
    · simpa [remove, h] using ih
    · simpa [remove, h, get] using ih

theorem get_remove_of_ne {k k' : κ} (hne : k' ≠ k) (m : List (κ × ν)) : get k' (remove k m) = get k' m := by
  induction m with
  | nil => rfl
  | cons e m ih =>
    by_cases h : e.1 = k
    · have h' : e.1 ≠ k' := fun h' => hne (h' ▸ h)
      simpa [remove, h, get, hne.symm] using ih
    · by_cases h' : e.1 = k'
      · simp [remove, hne, get, h']
      · simpa [remove, h, get, h'] using ih

end Dict
