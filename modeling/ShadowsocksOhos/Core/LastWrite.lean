/-
Lists of writes to places, of which only the last one to each place counts.

- `last`: what the last write to a place leaves there.
- `last_perm`, `last_skip`, `last_overwritten`: what may be done to a list without changing it.
- `look_foldl`: a fold that carries out the writes.
- `foldlM_refuse`: a fold that stops at the first item it refuses.
-/
import Mathlib.Tactic

namespace LastWrite

variable {α β ε κ ν σ : Type*}

/-- the first hit does not depend on the order when there is at most one -/
theorem findSome?_perm {f : α → Option β} {xs ys : List α} (h : xs.Perm ys)
    (hone : xs.Pairwise fun x y => f x = none ∨ f y = none) : xs.findSome? f = ys.findSome? f := by
  induction h with
  | nil => rfl
  | cons x _ ih => rw [List.findSome?_cons, List.findSome?_cons, ih (List.pairwise_cons.1 hone).2]
  | swap x y xs =>
    rcases (List.pairwise_cons.1 hone).1 x List.mem_cons_self with hy | hx
    · simp only [List.findSome?_cons, hy]
    · simp only [List.findSome?_cons, hx]
  | trans hperm _ ih ih' =>
    have hsymm : ∀ {x y}, (f x = none ∨ f y = none) → (f y = none ∨ f x = none) := Or.symm
    exact (ih hone).trans (ih' ((hperm.pairwise_iff hsymm).1 hone))

theorem findSome?_skip {f : α → Option β} {x : α} (h : f x = none) (pre post : List α) :
    (pre ++ x :: post).findSome? f = (pre ++ post).findSome? f := by
  rw [List.findSome?_append, List.findSome?_append, List.findSome?_cons, h]

/-- a fold that refuses some items goes as far as the first of them -/
theorem foldlM_refuse {step : σ → α → Except ε σ} {refuse : α → Option ε} {go : σ → α → σ}
    (h : ∀ s x, step s x = (refuse x).elim (.ok (go s x)) .error) (s : σ) (xs : List α) :
    xs.foldlM step s = (xs.findSome? refuse).elim (.ok (xs.foldl go s)) .error := by
  induction xs generalizing s with
  | nil => rfl
  | cons x xs ih =>
    rw [List.foldlM_cons, List.findSome?_cons, h]
    cases refuse x with
    | none => exact ih (go s x)
    | some e => rfl

variable [DecidableEq κ] (write : α → Option (κ × ν)) (k : κ)

/-- what an item writes to a place -/
def written (x : α) : Option ν := (write x).bind fun e => if e.1 = k then some e.2 else none

/-- what the last write to a place leaves there -/
def last (xs : List α) : Option ν := xs.reverse.findSome? (written write k)

variable {write k}

theorem written_none {x : α} (h : write x = none) : written write k x = none := by
  rw [written, h, Option.bind_none]

theorem written_some {x : α} {k' : κ} {v : ν} (h : write x = some (k', v)) :
    written write k x = if k' = k then some v else none := by
  rw [written, h, Option.bind_some]

theorem last_append (xs ys : List α) : last write k (xs ++ ys) = (last write k ys).or (last write k xs) := by
  rw [last, List.reverse_append, List.findSome?_append]
  rfl

theorem last_singleton (x : α) : last write k [x] = written write k x := by
  rw [last, List.reverse_singleton, List.findSome?_singleton]

theorem last_cons (x : α) (xs : List α) : last write k (x :: xs) = (last write k xs).or (written write k x) := by
  rw [← List.singleton_append, last_append, last_singleton]

theorem last_skip {x : α} (h : written write k x = none) (pre post : List α) :
    last write k (pre ++ x :: post) = last write k (pre ++ post) := by
  rw [last_append, last_append, last_cons, h, Option.or_none]

/-- writes to different places may be permuted -/
theorem last_perm {xs ys : List α} (h : xs.Perm ys)
    (hone : xs.Pairwise fun x y => written write k x = none ∨ written write k y = none) :
    last write k xs = last write k ys := by
  refine findSome?_perm ((List.reverse_perm xs).trans (h.trans (List.reverse_perm ys).symm)) ?_
  rw [List.pairwise_reverse]
  exact hone.imp Or.symm

/-- a write does not count when there is a later one to the same place -/
theorem last_overwritten {x y : α} (h : written write k y = none → written write k x = none) (pre mid post : List α) :
    last write k (pre ++ x :: (mid ++ y :: post)) = last write k (pre ++ (mid ++ y :: post)) := by
  by_cases hy : written write k y = none
  · exact last_skip (h hy) pre _
  · obtain ⟨v, hv⟩ := Option.ne_none_iff_exists'.1 hy
    have hsome : ∃ w, last write k (mid ++ y :: post) = some w := by
      rw [last_append, last_cons, hv]
      cases last write k post with
      | none => exact ⟨v, rfl⟩
      | some w => exact ⟨w, rfl⟩
    obtain ⟨w, hw⟩ := hsome
    rw [last_append, last_append, last_cons, hw]
    rfl

/-- **A fold that carries out the writes** leaves in each place what the last write has put there. -/
theorem look_foldl {step : σ → α → σ} (look : σ → β) {put : ν → β}
    (h : ∀ s x, look (step s x) = (written write k x).elim (look s) put) (s : σ) (xs : List α) :
    look (xs.foldl step s) = (last write k xs).elim (look s) put := by
  induction xs generalizing s with
  | nil => rfl
  | cons x xs ih =>
    rw [List.foldl_cons, ih, last_cons, h]
    cases last write k xs with
    | none => rfl
    | some w => rfl

end LastWrite
