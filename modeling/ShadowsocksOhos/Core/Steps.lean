/-
Machines whose steps may be refused. A step function takes a state and an action and gives the next state, or `none`
when the action is not possible there; a run takes one action after another.

- `Along`: every step of a run meets a condition on the state before it and the action.
- `run_inv`: what steps that meet the condition keep holds after every run along which it is met.
- `not_along`: a run that breaks the condition has a first step that breaks it, with what comes before and after.
- `along_iff_always`: where the condition says exactly which steps keep a property, it is met along a run if and only if
the property holds all along.
-/
import Mathlib.Tactic

namespace Steps

variable {σ α : Type*}

def run (step : σ → α → Option σ) (s : σ) : List α → Option σ
  | [] => some s
  | a :: as =>
    match step s a with
    | some s' => run step s' as
    | none => none

/-- every step of the run meets the condition -/
def Along (step : σ → α → Option σ) (P : σ → α → Prop) (s : σ) : List α → Prop
  | [] => True
  | a :: as => P s a ∧
    match step s a with
    | some s' => Along step P s' as
    | none => True

instance decidableAlong (step : σ → α → Option σ) (P : σ → α → Prop) [∀ s a, Decidable (P s a)] :
    ∀ s as, Decidable (Along step P s as)
  | _, [] => inferInstanceAs (Decidable True)
  | s, a :: as =>
    @instDecidableAnd _ _ _ <|
      match step s a with
      | some s' => decidableAlong step P s' as
      | none => inferInstanceAs (Decidable True)

variable {step : σ → α → Option σ} {P : σ → α → Prop} {s s' : σ} {as : List α}

theorem run_cons {a : α} (h : run step s (a :: as) = some s') : ∃ s1, step s a = some s1 ∧ run step s1 as = some s' := by
  unfold run at h
  split at h
  · rename_i s1 h1
    exact ⟨s1, h1, h⟩
  · cases h

theorem along_cons {a : α} (h : Along step P s (a :: as)) : P s a ∧ ∀ s1, step s a = some s1 → Along step P s1 as := by
  refine ⟨h.1, fun s1 h1 => ?_⟩
  have := h.2
  rwa [h1] at this

theorem run_append {s1 s2 : σ} {bs : List α} (h1 : run step s as = some s1) (h2 : run step s1 bs = some s2) :
    run step s (as ++ bs) = some s2 := by
  induction as generalizing s with
  | nil => cases h1; exact h2
  | cons a as ih =>
    obtain ⟨t, ht, hrest⟩ := run_cons h1
    simp only [List.cons_append, run, ht]
    exact ih hrest

theorem run_split {bs : List α} (h : run step s (as ++ bs) = some s') :
    ∃ s1, run step s as = some s1 ∧ run step s1 bs = some s' := by
  induction as generalizing s with
  | nil => exact ⟨s, rfl, h⟩
  | cons a as ih =>
    obtain ⟨t, ht, hrest⟩ := run_cons h
    obtain ⟨s1, h1, h2⟩ := ih hrest
    refine ⟨s1, ?_, h2⟩
    simp only [run, ht]
    exact h1

theorem along_append {bs : List α} (h : Along step P s (as ++ bs)) : Along step P s as := by
  induction as generalizing s with
  | nil => trivial
  | cons a as ih =>
    obtain ⟨ha, hrest⟩ := along_cons h
    refine ⟨ha, ?_⟩
    split
    · rename_i s1 h1
      exact ih (hrest s1 h1)
    · trivial

/-- **Run rule.** -/
theorem run_inv {I : σ → Prop} (hstep : ∀ s a s', I s → P s a → step s a = some s' → I s') (hs : I s)
    (hP : Along step P s as) (h : run step s as = some s') : I s' := by
  induction as generalizing s with
  | nil => cases h; exact hs
  | cons a as ih =>
    obtain ⟨s1, h1, h2⟩ := run_cons h
    obtain ⟨ha, hrest⟩ := along_cons hP
    exact ih (hstep s a s1 hs ha h1) (hrest s1 h1) h2

/-- the run rule for steps without a condition -/
theorem run_inv' {I : σ → Prop} (hstep : ∀ s a s', I s → step s a = some s' → I s') (hs : I s)
    (h : run step s as = some s') : I s' := by
  induction as generalizing s with
  | nil => cases h; exact hs
  | cons a as ih =>
    obtain ⟨s1, h1, h2⟩ := run_cons h
    exact ih (hstep s a s1 hs h1) h2

/-- a condition on the actions alone -/
theorem along_of_forall {Q : α → Prop} (hQ : ∀ a ∈ as, Q a) : Along step (fun _ a => Q a) s as := by
  induction as generalizing s with
  | nil => trivial
  | cons a as ih =>
    refine ⟨hQ a List.mem_cons_self, ?_⟩
    split
    · exact ih fun b hb => hQ b (List.mem_cons_of_mem _ hb)
    · trivial

/-- a run that breaks the condition, cut at its first step that does -/
theorem not_along (hn : ¬ Along step P s as) (h : run step s as = some s') :
    ∃ before a after s1 s2, as = before ++ a :: after ∧ run step s before = some s1 ∧ Along step P s before ∧
      ¬ P s1 a ∧ step s1 a = some s2 ∧ run step s2 after = some s' := by
  induction as generalizing s with
  | nil => exact absurd trivial hn
  | cons a as ih =>
    obtain ⟨s1, h1, h2⟩ := run_cons h
    by_cases hP : P s a
    · have hn' : ¬ Along step P s1 as := fun hc => hn ⟨hP, by rw [h1]; exact hc⟩
      obtain ⟨before, b, after, t1, t2, rfl, hr, hal, hb, hst, hrest⟩ := ih hn' h2
      exact ⟨a :: before, b, after, t1, t2, rfl, by simp only [run, h1, hr], ⟨hP, by rw [h1]; exact hal⟩, hb, hst, hrest⟩
    · exact ⟨[], a, as, s, s1, rfl, rfl, trivial, hP, h1, h2⟩

/-- **Exact conditions.** -/
theorem along_iff_always {I : σ → Prop} (hstep : ∀ s a s', I s → step s a = some s' → (I s' ↔ P s a)) (hs : I s)
    (h : run step s as = some s') :
    Along step P s as ↔ ∀ before after t, as = before ++ after → run step s before = some t → I t := by
  constructor
  · rintro hal before after t rfl hrun
    refine run_inv (fun s a s' hs hp h => (hstep s a s' hs h).2 hp) hs (along_append hal) hrun
  · intro hall
    by_contra hn
    obtain ⟨before, a, after, s1, s2, rfl, h1, -, hP, h2, -⟩ := not_along hn h
    have hs1 : I s1 := hall before (a :: after) s1 rfl h1
    have hs2 : I s2 := hall (before ++ [a]) after s2 (by simp) (run_append h1 (by simp [run, h2]))
    exact hP ((hstep s1 a s2 hs1 h2).1 hs2)

end Steps
